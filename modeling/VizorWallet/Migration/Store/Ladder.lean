import VizorWallet.Library.Assoc
import VizorWallet.Library.Pointwise
import VizorWallet.Migration.Store.Broadcasts
import VizorWallet.Migration.Store.Schedule

/-!
# The recovery schedule

Parts that wait for a new signature get offsets on one ladder, which later calls extend and never
shorten.

## Main definitions

* `ensureRebuildScheduleGeneration` — the offsets of the parts that wait, drawn where they lack one.
* `Ladder` — the offsets of the rows are bounded by the largest one of the run.
* `Extends` — what a call returns and writes.

## Main results

* `ensureRebuildScheduleGeneration_extends`, `Ladder.not_refused`
-/

namespace VizorWallet.Migration.Store

open Reorg (Txid)

/-! ## The call -/

structure RebuildScheduleGeneration where
  originHeight : ℕ
  offsetsByTxid : List (Txid × ℕ)
  deriving DecidableEq

/-- The random choices of a call. -/
structure Draws where
  slots : Shuffle ℕ
  sampler : ∀ maxDelayBlocks, Sampler maxDelayBlocks

/-- A part that an offset is drawn for. -/
structure UnassignedPart where
  txid : Txid
  partIndex : ℕ
  value : ℕ
  previousOffset : Option ℕ

/-- Fresh offsets, handed out in a shuffled order. -/
def rebuildScheduleBlockOffsets (schedule : List MigrationScheduleEntry) (targetValues : List ℕ)
    (recoveries : List (ℕ × ℕ)) (network : WalletNetwork) (timingPolicy : MigrationTimingPolicy)
    (draws : Draws) : Except String (List ℕ) := do
  ensure (∀ part ∈ recoveries,
      (scheduleBlockOffsetForPart schedule targetValues part.1 part.2).isSome)
    "Approved migration schedule is missing a recovery child"
  let maxDelayBlocks := (scheduleParametersWithPolicy network timingPolicy).2
  let offsets := randomScheduleBlockOffsets (draws.sampler maxDelayBlocks) recoveries.length 0 0
  let slots := draws.slots.shuffle (List.range recoveries.length)
  return (slots.zip offsets).foldl (fun assigned slot => assigned.set slot.1 slot.2)
    (List.replicate recoveries.length 0)

/-- What the loop over the rows finds out. -/
structure Survey where
  offsetsByTxid : List (Txid × ℕ)
  toAssign : List UnassignedPart
  observedMaxOffset : ℕ
  anyPersistedOffset : Bool

/-- One row; a height that the chain has passed is drawn again. -/
def surveyRow (elapsedCursor : ℕ) (survey : Survey) (row : PendingTx) : Except String Survey := do
  let partIndex ← orError row.partIndex
    "Migration part waiting for re-sign is missing its part index"
  let part : UnassignedPart := ⟨row.txid, partIndex, row.value, row.rebuildBlockOffset⟩
  match row.rebuildBlockOffset with
  | some offset =>
    let survey := { survey with
      observedMaxOffset := max survey.observedMaxOffset offset
      anyPersistedOffset := true }
    if offset < elapsedCursor then
      return { survey with toAssign := survey.toAssign ++ [part] }
    else
      return { survey with offsetsByTxid := insertKey row.txid offset survey.offsetsByTxid }
  | none => return { survey with toAssign := survey.toAssign ++ [part] }

/-- The largest offset that the ladder has reached. -/
def persistedBaseOffset (persistedMaxOffset : Option ℕ) (observedMaxOffset : ℕ) :
    Except String ℕ :=
  match persistedMaxOffset with
  | some maxOffset => do
    ensure (observedMaxOffset ≤ maxOffset)
      "Migration recovery schedule maximum is below a persisted part offset"
    return maxOffset
  | none => .ok observedMaxOffset

/-- One round of the loop that assigns: the rows, the largest offset and the offsets so far. -/
def assignOffset (baseOffset : ℕ) (state : List PendingTx × ℕ × List (Txid × ℕ))
    (part : UnassignedPart × ℕ) : Except String (List PendingTx × ℕ × List (Txid × ℕ)) := do
  let assigned ← checkedAdd baseOffset part.2 "Migration rebuild schedule offset overflow"
  let condition := fun row : PendingTx => decide (row.txid = part.1.txid ∧
    row.status = .needsResign ∧ row.rebuildBlockOffset = part.1.previousOffset)
  ensure (state.1.countP condition = 1) "Migration recovery part changed while scheduling"
  return (updateWhere condition ({ · with rebuildBlockOffset := some assigned }) state.1,
    max state.2.1 assigned, insertKey part.1.txid assigned state.2.2)

/-- The parts that wait for a new signature, in the order of their broadcasts. -/
def needsResignRows (run : Run) : List PendingTx :=
  (run.pending.filter (·.status = .needsResign)).mergeSort broadcastsBefore

/-- The offsets that are drawn for the parts that lack one. -/
def assignOffsets (draws : Draws) (run : Run) (baseOffset : ℕ) (survey : Survey) :
    Except String (List PendingTx × ℕ × List (Txid × ℕ)) :=
  if survey.toAssign.isEmpty then .ok (run.pending, baseOffset, survey.offsetsByTxid)
  else do
    let freshOffsets ← rebuildScheduleBlockOffsets run.schedule run.targetValues
      (survey.toAssign.map fun part => (part.partIndex, part.value)) run.network run.timingPolicy
      draws
    (survey.toAssign.zip freshOffsets).foldlM (assignOffset baseOffset)
      (run.pending, baseOffset, survey.offsetsByTxid)

def ensureRebuildScheduleGeneration (draws : Draws) (originCandidateHeight : ℕ) (run : Run) :
    Except String (Run × Option RebuildScheduleGeneration) :=
  if (needsResignRows run).isEmpty then .ok (run, none)
  else do
    let originHeight := run.recoveryScheduleOriginHeight.getD originCandidateHeight
    let elapsedCursor := originCandidateHeight - originHeight
    let survey ← (needsResignRows run).foldlM (surveyRow elapsedCursor) ⟨[], [], 0, false⟩
    ensure (¬ (run.recoveryScheduleOriginHeight = none ∧
        (run.recoveryScheduleMaxBlockOffset.isSome ∨ survey.anyPersistedOffset)))
      "Migration recovery schedule metadata is incomplete"
    let persistedBase ← persistedBaseOffset run.recoveryScheduleMaxBlockOffset
      survey.observedMaxOffset
    let (pending, generationMaxOffset, offsetsByTxid) ←
      assignOffsets draws run (max persistedBase elapsedCursor) survey
    return ({ run with
      pending := pending
      recoveryScheduleOriginHeight := some originHeight
      recoveryScheduleMaxBlockOffset := some generationMaxOffset },
      some ⟨originHeight, offsetsByTxid⟩)

/-! ## The loop over the rows -/

variable {rows rows' : List PendingTx} {elapsedCursor baseOffset : ℕ} {survey survey' : Survey}

/-- The row has no offset, or one that the chain has passed. -/
def PendingTx.stale (elapsedCursor : ℕ) (row : PendingTx) : Bool :=
  row.rebuildBlockOffset.all (· < elapsedCursor)

/-- One round: what it does to the parts to assign and to the offsets that stay. -/
theorem surveyRow_spec {row : PendingTx} (h : surveyRow elapsedCursor survey row = .ok survey') :
    (row.stale elapsedCursor ∧ survey'.toAssign.map (·.txid) =
        survey.toAssign.map (·.txid) ++ [row.txid] ∧
      survey'.offsetsByTxid = survey.offsetsByTxid ∨
    ∃ offset, row.stale elapsedCursor = false ∧ row.rebuildBlockOffset = some offset ∧
      survey'.toAssign = survey.toAssign ∧
      survey'.offsetsByTxid = insertKey row.txid offset survey.offsetsByTxid) ∧
    survey'.observedMaxOffset = max survey.observedMaxOffset (row.rebuildBlockOffset.getD 0) ∧
    survey'.anyPersistedOffset = (survey.anyPersistedOffset || row.rebuildBlockOffset.isSome) := by
  obtain ⟨partIndex, -, hresult⟩ := bind_eq_ok.1 h
  cases hoffset : row.rebuildBlockOffset with
  | none =>
    simp only [hoffset] at hresult
    obtain rfl := pure_eq_ok.1 hresult
    refine ⟨.inl ⟨?_, List.map_append, rfl⟩, (Nat.max_zero _).symm, (Bool.or_false _).symm⟩
    simp [PendingTx.stale, hoffset]
  | some offset =>
    simp only [hoffset] at hresult
    split_ifs at hresult with hpassed
    · obtain rfl := pure_eq_ok.1 hresult
      refine ⟨.inl ⟨?_, List.map_append, rfl⟩, rfl, (Bool.or_true _).symm⟩
      simpa [PendingTx.stale, hoffset] using hpassed
    · obtain rfl := pure_eq_ok.1 hresult
      refine ⟨.inr ⟨offset, ?_, rfl, rfl, rfl⟩, rfl, (Bool.or_true _).symm⟩
      simpa [PendingTx.stale, hoffset] using hpassed

/-- The parts to assign are the stale rows, and the other rows keep their offsets. -/
structure Surveyed (elapsedCursor : ℕ) (rows : List PendingTx) (survey survey' : Survey) :
    Prop where
  toAssign : survey'.toAssign.map (·.txid) = survey.toAssign.map (·.txid) ++
    (rows.filter (PendingTx.stale elapsedCursor)).map PendingTx.txid
  kept : ∀ row ∈ rows, row.stale elapsedCursor = false →
    survey'.offsetsByTxid.lookup row.txid = row.rebuildBlockOffset
  other : ∀ txid, txid ∉ rows.map PendingTx.txid →
    survey'.offsetsByTxid.lookup txid = survey.offsetsByTxid.lookup txid
  stale : ∀ row ∈ rows, row.stale elapsedCursor →
    survey'.offsetsByTxid.lookup row.txid = survey.offsetsByTxid.lookup row.txid
  nodup : (survey.offsetsByTxid.map Prod.fst).Nodup → (survey'.offsetsByTxid.map Prod.fst).Nodup
  observed : ∀ bound, survey.observedMaxOffset ≤ bound →
    (∀ row ∈ rows, row.rebuildBlockOffset.getD 0 ≤ bound) → survey'.observedMaxOffset ≤ bound
  above : survey.observedMaxOffset ≤ survey'.observedMaxOffset ∧
    ∀ row ∈ rows, row.rebuildBlockOffset.getD 0 ≤ survey'.observedMaxOffset
  persisted : survey'.anyPersistedOffset =
    (survey.anyPersistedOffset || rows.any (·.rebuildBlockOffset.isSome))

theorem surveyed (hnodup : (rows.map PendingTx.txid).Nodup)
    (h : rows.foldlM (surveyRow elapsedCursor) survey = .ok survey') :
    Surveyed elapsedCursor rows survey survey' := by
  induction rows generalizing survey with
  | nil =>
    obtain rfl := pure_eq_ok.1 h
    exact ⟨by simp, nofun, fun _ _ => rfl, nofun, id, fun _ h _ => h, ⟨le_rfl, nofun⟩, by simp⟩
  | cons row rest ih =>
    rw [List.foldlM_cons, bind_eq_ok] at h
    obtain ⟨middle, hround, hrest⟩ := h
    rw [List.map_cons, List.nodup_cons] at hnodup
    have hih := ih hnodup.2 hrest
    obtain ⟨hcases, hobserved, hpersisted⟩ := surveyRow_spec hround
    refine ⟨?_, ?_, ?_, ?_, ?_, ?_, ?_, ?_⟩
    · rw [hih.toAssign]
      obtain ⟨hstale, hparts, -⟩ | ⟨offset, hstale, -, hparts, -⟩ := hcases
      · rw [List.filter_cons_of_pos hstale, hparts]
        simp
      · rw [List.filter_cons_of_neg (by simp [hstale]), hparts]
    · intro other hother hkept
      obtain rfl | hother := List.mem_cons.1 hother
      · rw [hih.other _ hnodup.1]
        obtain ⟨hstale, -⟩ | ⟨offset, -, hoffset, -, hoffsets⟩ := hcases
        · simp [hstale] at hkept
        · rw [hoffsets, lookup_insertKey, if_pos rfl, hoffset]
      · exact hih.kept other hother hkept
    · intro txid htxid
      rw [List.map_cons, List.mem_cons, not_or] at htxid
      rw [hih.other _ htxid.2]
      obtain ⟨-, -, hoffsets⟩ | ⟨offset, -, -, -, hoffsets⟩ := hcases
      · rw [hoffsets]
      · rw [hoffsets, lookup_insertKey, if_neg htxid.1]
    · intro other hother hstale
      obtain rfl | hother := List.mem_cons.1 hother
      · rw [hih.other _ hnodup.1]
        obtain ⟨-, -, hoffsets⟩ | ⟨offset, hfresh, -⟩ := hcases
        · rw [hoffsets]
        · simp [hstale] at hfresh
      · rw [hih.stale other hother hstale]
        have hne : other.txid ≠ row.txid := fun hsame =>
          hnodup.1 (hsame ▸ List.mem_map_of_mem hother)
        obtain ⟨-, -, hoffsets⟩ | ⟨offset, -, -, -, hoffsets⟩ := hcases
        · rw [hoffsets]
        · rw [hoffsets, lookup_insertKey, if_neg hne]
    · intro hbefore
      refine hih.nodup ?_
      obtain ⟨-, -, hoffsets⟩ | ⟨offset, -, -, -, hoffsets⟩ := hcases
      · rwa [hoffsets]
      · rw [hoffsets]
        exact nodup_insertKey hbefore
    · intro bound hbound hrows
      rw [List.forall_mem_cons] at hrows
      refine hih.observed bound ?_ hrows.2
      rw [hobserved]
      exact max_le hbound hrows.1
    · rw [List.forall_mem_cons]
      have habove := hih.above.1
      rw [hobserved] at habove
      exact ⟨le_trans (le_max_left _ _) habove, le_trans (le_max_right _ _) habove, hih.above.2⟩
    · rw [hih.persisted, hpersisted, List.any_cons, Bool.or_assoc]

/-! ## The loop that assigns -/

variable {parts : List (UnassignedPart × ℕ)} {largest largest' : ℕ}
  {offsets offsets' : List (Txid × ℕ)}

/-- The row with the offset that a map holds for it. -/
def PendingTx.assignedFrom (txids : List Txid) (offsets : List (Txid × ℕ)) (row : PendingTx) :
    PendingTx :=
  if row.txid ∈ txids then { row with rebuildBlockOffset := offsets.lookup row.txid } else row

/-- Each part gets an offset above the base, and its row has it. -/
structure AssignedOffsets (baseOffset : ℕ) (txids : List Txid) (rows rows' : List PendingTx)
    (largest largest' : ℕ) (offsets offsets' : List (Txid × ℕ)) : Prop where
  rows : rows' = rows.map (PendingTx.assignedFrom txids offsets')
  largest : largest ≤ largest'
  assigned : ∀ txid ∈ txids, ∃ offset, offsets'.lookup txid = some offset ∧ baseOffset ≤ offset ∧
    offset ≤ largest'
  other : ∀ txid, txid ∉ txids → offsets'.lookup txid = offsets.lookup txid
  nodup : (offsets.map Prod.fst).Nodup → (offsets'.map Prod.fst).Nodup

/-- The round updates the row with the id of its part. -/
theorem updateWhere_of_countP {txid : Txid} {condition : PendingTx → Bool} {offset : ℕ}
    (hnodup : (rows.map PendingTx.txid).Nodup)
    (hcondition : ∀ row, condition row → row.txid = txid) (hcount : rows.countP condition = 1) :
    updateWhere condition ({ · with rebuildBlockOffset := some offset }) rows =
      rows.map fun row =>
        if row.txid = txid then { row with rebuildBlockOffset := some offset } else row := by
  obtain ⟨found, hfound, hmeets⟩ := List.countP_pos_iff.1 (hcount ▸ Nat.one_pos)
  refine List.map_congr_left fun row hrow => ?_
  by_cases htxid : row.txid = txid
  · have hsame : row = found :=
      List.inj_on_of_nodup_map hnodup hrow hfound (htxid.trans (hcondition found hmeets).symm)
    rw [if_pos htxid, if_pos (hsame ▸ hmeets)]
  · rw [if_neg htxid, if_neg fun hmeets => htxid (hcondition row hmeets)]

theorem assignedOffsets (hnodup : (rows.map PendingTx.txid).Nodup)
    (hparts : (parts.map (·.1.txid)).Nodup)
    (h : parts.foldlM (assignOffset baseOffset) (rows, largest, offsets) =
      .ok (rows', largest', offsets')) :
    AssignedOffsets baseOffset (parts.map (·.1.txid)) rows rows' largest largest' offsets
      offsets' := by
  induction parts generalizing rows largest offsets with
  | nil =>
    obtain ⟨rfl, hsame⟩ := Prod.mk.inj (pure_eq_ok.1 h)
    obtain ⟨rfl, rfl⟩ := Prod.mk.inj hsame
    refine ⟨?_, le_rfl, nofun, fun _ _ => rfl, id⟩
    exact (List.map_id _).symm.trans (List.map_congr_left fun row _ => (if_neg (by simp)).symm)
  | cons part rest ih =>
    rw [List.foldlM_cons, bind_eq_ok] at h
    obtain ⟨⟨rows₁, largest₁, offsets₁⟩, hround, hrest⟩ := h
    rw [List.map_cons, List.nodup_cons] at hparts
    simp only [assignOffset, checkedAdd, bind_eq_ok, ensure_eq_ok, exists_const, pure_eq_ok]
      at hround
    obtain ⟨assigned, ⟨-, rfl⟩, hcount, hresult⟩ := hround
    obtain ⟨rfl, hpair⟩ := Prod.mk.inj hresult
    obtain ⟨rfl, rfl⟩ := Prod.mk.inj hpair
    have hupdated := @updateWhere_of_countP rows part.1.txid _ (baseOffset + part.2) hnodup
      (fun row hmeets => (of_decide_eq_true hmeets).1) hcount
    rw [hupdated] at hrest
    have hkeys : (rows.map fun row => if row.txid = part.1.txid then
        { row with rebuildBlockOffset := some (baseOffset + part.2) } else row).map
        PendingTx.txid = rows.map PendingTx.txid := by
      rw [List.map_map]
      refine List.map_congr_left fun row _ => ?_
      rw [Function.comp_apply]
      split_ifs <;> rfl
    have hih := ih (hkeys ▸ hnodup) hparts.2 hrest
    have hlookup : offsets'.lookup part.1.txid = some (baseOffset + part.2) := by
      rw [hih.other _ hparts.1, lookup_insertKey, if_pos rfl]
    refine ⟨?_, ?_, ?_, ?_, ?_⟩
    · rw [hih.rows, List.map_map]
      refine List.map_congr_left fun row _ => ?_
      rw [Function.comp_apply]
      by_cases htxid : row.txid = part.1.txid
      · simp [PendingTx.assignedFrom, htxid, hparts.1, hlookup]
      · rw [if_neg htxid, PendingTx.assignedFrom, PendingTx.assignedFrom, List.map_cons]
        simp only [List.mem_cons, htxid, false_or]
    · exact le_trans (le_max_left _ _) hih.largest
    · intro txid htxid
      obtain rfl | htxid := List.mem_cons.1 htxid
      · exact ⟨_, hlookup, Nat.le_add_right _ _, le_trans (le_max_right _ _) hih.largest⟩
      · exact hih.assigned txid htxid
    · intro txid htxid
      rw [List.map_cons, List.mem_cons, not_or] at htxid
      rw [hih.other txid htxid.2, lookup_insertKey, if_neg htxid.1]
    · exact fun hbefore => hih.nodup (nodup_insertKey hbefore)

theorem length_foldl_set {slots : List (ℕ × ℕ)} {assigned : List ℕ} :
    (slots.foldl (fun assigned slot => assigned.set slot.1 slot.2) assigned).length =
      assigned.length := by
  induction slots generalizing assigned with
  | nil => rfl
  | cons slot rest ih => rw [List.foldl_cons, ih, List.length_set]

/-- There is an offset for each part. -/
theorem length_rebuildScheduleBlockOffsets {schedule : List MigrationScheduleEntry}
    {targetValues freshOffsets : List ℕ} {recoveries : List (ℕ × ℕ)} {network : WalletNetwork}
    {timingPolicy : MigrationTimingPolicy} {draws : Draws}
    (h : rebuildScheduleBlockOffsets schedule targetValues recoveries network timingPolicy draws =
      .ok freshOffsets) : freshOffsets.length = recoveries.length := by
  obtain ⟨-, -, hoffsets⟩ := bind_eq_ok.1 h
  rw [← pure_eq_ok.1 hoffsets, length_foldl_set, List.length_replicate]

variable {run run' : Run} {draws : Draws} {tip : ℕ}

theorem assignOffsets_spec (hnodup : (run.pending.map PendingTx.txid).Nodup)
    (hparts : (survey.toAssign.map (·.txid)).Nodup)
    (h : assignOffsets draws run baseOffset survey = .ok (rows', largest', offsets')) :
    AssignedOffsets baseOffset (survey.toAssign.map (·.txid)) run.pending rows' baseOffset largest'
      survey.offsetsByTxid offsets' := by
  have hnone := @assignedOffsets run.pending rows' baseOffset [] baseOffset largest'
    survey.offsetsByTxid offsets' hnodup List.nodup_nil
  unfold assignOffsets at h
  split_ifs at h with hempty
  · rw [List.isEmpty_iff.1 hempty]
    exact hnone h
  · obtain ⟨freshOffsets, hfresh, hfold⟩ := bind_eq_ok.1 h
    have hlength : survey.toAssign.length ≤ freshOffsets.length := by
      rw [length_rebuildScheduleBlockOffsets hfresh, List.length_map]
    have htxids : (survey.toAssign.zip freshOffsets).map (·.1.txid) =
        survey.toAssign.map (·.txid) := by
      have hzip := List.map_fst_zip hlength
      conv_rhs => rw [← hzip]
      rw [List.map_map]
      rfl
    rw [← htxids]
    exact assignedOffsets hnodup (htxids ▸ hparts) hfold

/-! ## The ladder -/

/-- The offsets of the rows lie on one ladder. -/
structure Ladder (run : Run) : Prop where
  keyed : run.Keyed
  origin : run.recoveryScheduleOriginHeight = none → run.recoveryScheduleMaxBlockOffset = none
  bounded : ∀ row ∈ run.pending, ∀ offset, row.rebuildBlockOffset = some offset →
    ∃ largest, run.recoveryScheduleMaxBlockOffset = some largest ∧ offset ≤ largest

/-- What a call writes into a row: an offset that it returns, when the row waits. -/
def Rescheduled (generation : RebuildScheduleGeneration) (row row' : PendingTx) : Prop :=
  row' = { row with rebuildBlockOffset := row'.rebuildBlockOffset } ∧
    (row.status = .needsResign → ∃ offset, row'.rebuildBlockOffset = some offset ∧
      (row.txid, offset) ∈ generation.offsetsByTxid) ∧
    (row.status ≠ .needsResign → row' = row)

/-- What a call that finds parts returns and writes. -/
structure Extends (tip : ℕ) (run run' : Run) (generation : RebuildScheduleGeneration) : Prop where
  origin : generation.originHeight = run.recoveryScheduleOriginHeight.getD tip
  persistedOrigin : run'.recoveryScheduleOriginHeight = some generation.originHeight
  nodup : (generation.offsetsByTxid.map Prod.fst).Nodup
  covers : ∀ txid, txid ∈ generation.offsetsByTxid.map Prod.fst ↔
    ∃ row ∈ run.pending, row.status = .needsResign ∧ row.txid = txid
  elapsed : ∀ entry ∈ generation.offsetsByTxid, tip - generation.originHeight ≤ entry.2
  kept : ∀ row ∈ run.pending, row.status = .needsResign → ∀ offset,
    row.rebuildBlockOffset = some offset → tip - generation.originHeight ≤ offset →
      (row.txid, offset) ∈ generation.offsetsByTxid
  assigned : ∀ entry ∈ generation.offsetsByTxid,
    (∃ row ∈ run.pending, row.txid = entry.1 ∧ row.rebuildBlockOffset = some entry.2) ∨
      ∀ largest, run.recoveryScheduleMaxBlockOffset = some largest → largest ≤ entry.2
  rows : List.Forall₂ (Rescheduled generation) run.pending run'.pending
  largest : ∃ largest, run'.recoveryScheduleMaxBlockOffset = some largest ∧
    (∀ entry ∈ generation.offsetsByTxid, entry.2 ≤ largest) ∧
    ∀ before, run.recoveryScheduleMaxBlockOffset = some before → before ≤ largest

theorem mem_needsResignRows {row : PendingTx} :
    row ∈ needsResignRows run ↔ row ∈ run.pending ∧ row.status = .needsResign := by
  rw [needsResignRows, List.mem_mergeSort, List.mem_filter, decide_eq_true_eq]

theorem nodup_needsResignRows (hkeyed : run.Keyed) :
    ((needsResignRows run).map PendingTx.txid).Nodup :=
  ((List.mergeSort_perm _ _).map _).nodup_iff.2 (hkeyed.txids.sublist (List.filter_sublist.map _))

theorem persistedBaseOffset_spec {persistedMaxOffset : Option ℕ} {observedMaxOffset base : ℕ}
    (h : persistedBaseOffset persistedMaxOffset observedMaxOffset = .ok base) :
    observedMaxOffset ≤ base ∧ ∀ largest, persistedMaxOffset = some largest → largest ≤ base := by
  cases persistedMaxOffset with
  | none =>
    obtain rfl := Except.ok.inj h
    exact ⟨le_rfl, nofun⟩
  | some maxOffset =>
    obtain ⟨_, hle, hbase⟩ := bind_eq_ok.1 h
    obtain rfl := pure_eq_ok.1 hbase
    exact ⟨ensure_eq_ok.1 hle, fun largest hlargest => (Option.some.inj hlargest).ge⟩

section Call

variable {generation : RebuildScheduleGeneration}

/-- The parts that are drawn for are the stale ones. -/
def staleTxids (elapsedCursor : ℕ) (run : Run) : List Txid :=
  ((needsResignRows run).filter (PendingTx.stale elapsedCursor)).map PendingTx.txid

/-- A row whose id is drawn for waits for a signature and is stale. -/
theorem stale_of_mem (hkeyed : run.Keyed) {row : PendingTx} (hrow : row ∈ run.pending)
    (h : row.txid ∈ staleTxids elapsedCursor run) :
    row.status = .needsResign ∧ row.stale elapsedCursor := by
  obtain ⟨other, hother, htxid⟩ := List.mem_map.1 h
  obtain ⟨hwaits, hstale⟩ := List.mem_filter.1 hother
  obtain ⟨hmem, hstatus⟩ := mem_needsResignRows.1 hwaits
  obtain rfl := List.inj_on_of_nodup_map hkeyed.txids hmem hrow htxid
  exact ⟨hstatus, hstale⟩

/-- What the map of a call holds for a row that waits. -/
theorem lookup_row (hkeyed : run.Keyed)
    (hsurvey : Surveyed elapsedCursor (needsResignRows run) ⟨[], [], 0, false⟩ survey)
    (hassigned : AssignedOffsets baseOffset (staleTxids elapsedCursor run) run.pending rows'
      baseOffset largest' survey.offsetsByTxid offsets')
    (helapsed : elapsedCursor ≤ baseOffset) (hobserved : survey.observedMaxOffset ≤ baseOffset)
    {row : PendingTx} (hrow : row ∈ run.pending) (hstatus : row.status = .needsResign) :
    ∃ offset, offsets'.lookup row.txid = some offset ∧ elapsedCursor ≤ offset ∧
      offset ≤ largest' ∧ (row.rebuildBlockOffset = some offset ∨ baseOffset ≤ offset) ∧
      (row.stale elapsedCursor = false → row.rebuildBlockOffset = some offset) := by
  have hwaits : row ∈ needsResignRows run := mem_needsResignRows.2 ⟨hrow, hstatus⟩
  by_cases hstale : row.stale elapsedCursor
  · have hmem : row.txid ∈ staleTxids elapsedCursor run :=
      List.mem_map_of_mem (List.mem_filter.2 ⟨hwaits, hstale⟩)
    obtain ⟨offset, hlookup, hbase, hlargest⟩ := hassigned.assigned _ hmem
    refine ⟨offset, hlookup, helapsed.trans hbase, hlargest, .inr hbase, fun hfresh => ?_⟩
    simp [hstale] at hfresh
  · rw [Bool.not_eq_true] at hstale
    have hnot : row.txid ∉ staleTxids elapsedCursor run := fun hmem => by
      simp [(stale_of_mem hkeyed hrow hmem).2] at hstale
    have hlookup : offsets'.lookup row.txid = row.rebuildBlockOffset := by
      rw [hassigned.other _ hnot, hsurvey.kept row hwaits hstale]
    cases hoffset : row.rebuildBlockOffset with
    | none => simp [PendingTx.stale, hoffset] at hstale
    | some offset =>
      have hobservedRow := hsurvey.above.2 row hwaits
      rw [hoffset, Option.getD_some] at hobservedRow
      refine ⟨offset, hlookup.trans hoffset, ?_, ?_, .inl rfl, fun _ => rfl⟩
      · simpa [PendingTx.stale, hoffset] using hstale
      · exact hobservedRow.trans (hobserved.trans hassigned.largest)

/-- The map of a call holds nothing else. -/
theorem lookup_other
    (hsurvey : Surveyed elapsedCursor (needsResignRows run) ⟨[], [], 0, false⟩ survey)
    (hassigned : AssignedOffsets baseOffset (staleTxids elapsedCursor run) run.pending rows'
      baseOffset largest' survey.offsetsByTxid offsets') {txid : Txid}
    (h : ∀ row ∈ run.pending, row.status = .needsResign → row.txid ≠ txid) :
    offsets'.lookup txid = none := by
  have hnone : ∀ row ∈ needsResignRows run, row.txid ≠ txid := fun row hrow =>
    h row (mem_needsResignRows.1 hrow).1 (mem_needsResignRows.1 hrow).2
  have hstale : txid ∉ staleTxids elapsedCursor run := by
    rintro hmem
    obtain ⟨row, hrow, htxid⟩ := List.mem_map.1 hmem
    exact hnone row (List.mem_of_mem_filter hrow) htxid
  have hother : txid ∉ (needsResignRows run).map PendingTx.txid := by
    rintro hmem
    obtain ⟨row, hrow, htxid⟩ := List.mem_map.1 hmem
    exact hnone row hrow htxid
  rw [hassigned.other txid hstale, hsurvey.other txid hother]
  rfl

/-- Each row is rescheduled, with the offset that the map of the call holds for it. -/
theorem rescheduled_assignedFrom (hkeyed : run.Keyed) {row : PendingTx} (hrow : row ∈ run.pending)
    (hlookup : row.status = .needsResign →
      ∃ offset, generation.offsetsByTxid.lookup row.txid = some offset ∧ elapsedCursor ≤ offset ∧
        offset ≤ largest' ∧ (row.rebuildBlockOffset = some offset ∨ baseOffset ≤ offset) ∧
        (row.stale elapsedCursor = false → row.rebuildBlockOffset = some offset)) :
    Rescheduled generation row
      (row.assignedFrom (staleTxids elapsedCursor run) generation.offsetsByTxid) := by
  by_cases hmem : row.txid ∈ staleTxids elapsedCursor run
  · obtain ⟨hstatus, -⟩ := stale_of_mem hkeyed hrow hmem
    obtain ⟨offset, hoffset, -⟩ := hlookup hstatus
    rw [PendingTx.assignedFrom, if_pos hmem]
    exact ⟨rfl, fun _ => ⟨offset, hoffset, mem_of_lookup_eq_some hoffset⟩,
      fun hother => absurd hstatus hother⟩
  · rw [PendingTx.assignedFrom, if_neg hmem]
    refine ⟨rfl, fun hstatus => ?_, fun _ => rfl⟩
    -- A part that waits and is not drawn for keeps the offset of its row.
    have hkept : row.stale elapsedCursor = false := by
      by_contra hstaleRow
      refine hmem (List.mem_map_of_mem (List.mem_filter.2 ⟨?_, ?_⟩))
      · exact mem_needsResignRows.2 ⟨hrow, hstatus⟩
      · simpa using hstaleRow
    obtain ⟨offset, hoffset, -, -, -, hfresh⟩ := hlookup hstatus
    exact ⟨offset, hfresh hkept, mem_of_lookup_eq_some hoffset⟩

theorem ensureRebuildScheduleGeneration_extends (hkeyed : run.Keyed)
    (h : ensureRebuildScheduleGeneration draws tip run = .ok (run', some generation)) :
    Extends tip run run' generation := by
  unfold ensureRebuildScheduleGeneration at h
  split_ifs at h
  · cases (Prod.mk.inj (Except.ok.inj h)).2
  · simp only [bind_eq_ok, ensure_eq_ok, exists_const] at h
    obtain ⟨survey, hfold, hcomplete, persistedBase, hbase, ⟨pending, largest, offsets⟩, hassign,
      hresult⟩ := h
    obtain ⟨rfl, hgeneration⟩ := Prod.mk.inj (pure_eq_ok.1 hresult)
    obtain rfl := Option.some.inj hgeneration
    dsimp only at hassign ⊢
    set elapsed := tip - run.recoveryScheduleOriginHeight.getD tip with helapsedDef
    have hsurvey := surveyed (nodup_needsResignRows hkeyed) hfold
    have hstale : survey.toAssign.map (·.txid) = staleTxids elapsed run := hsurvey.toAssign
    have hstaleNodup : (survey.toAssign.map (·.txid)).Nodup := by
      rw [hstale]
      exact (nodup_needsResignRows hkeyed).sublist (List.filter_sublist.map _)
    have hassigned := assignOffsets_spec hkeyed.txids hstaleNodup hassign
    rw [hstale] at hassigned
    obtain ⟨hobserved, hpersisted⟩ := persistedBaseOffset_spec hbase
    have hrow {row : PendingTx} (hmem : row ∈ run.pending) (hstatus : row.status = .needsResign) :=
      lookup_row hkeyed hsurvey hassigned (le_max_right _ _)
        (hobserved.trans (le_max_left _ _)) hmem hstatus
    have hnodup : (offsets.map Prod.fst).Nodup :=
      hassigned.nodup (hsurvey.nodup List.nodup_nil)
    -- Every entry belongs to a row that waits.
    have hentry (entry : Txid × ℕ) (hmem : entry ∈ offsets) :
        ∃ row ∈ run.pending, row.status = .needsResign ∧ row.txid = entry.1 := by
      by_contra hnone
      push Not at hnone
      have hlookup := lookup_of_mem hnodup hmem
      rw [lookup_other hsurvey hassigned hnone] at hlookup
      cases hlookup
    have hvalue (entry : Txid × ℕ) (hmem : entry ∈ offsets) : elapsed ≤ entry.2 ∧
        entry.2 ≤ largest ∧ ((∃ row ∈ run.pending, row.txid = entry.1 ∧
          row.rebuildBlockOffset = some entry.2) ∨ max persistedBase elapsed ≤ entry.2) := by
      obtain ⟨row, hrowMem, hstatus, htxid⟩ := hentry entry hmem
      obtain ⟨offset, hlookup, hle, hlargest, hcases, -⟩ := hrow hrowMem hstatus
      rw [htxid, lookup_of_mem hnodup hmem] at hlookup
      obtain rfl := Option.some.inj hlookup
      exact ⟨hle, hlargest, hcases.imp_left fun hkept => ⟨row, hrowMem, htxid, hkept⟩⟩
    refine ⟨rfl, rfl, hnodup, fun txid => ⟨fun hmem => ?_, ?_⟩, fun entry hmem =>
      (hvalue entry hmem).1, ?_, fun entry hmem => ?_, ?_, largest, rfl, fun entry hmem =>
      (hvalue entry hmem).2.1, fun before hbefore => ?_⟩
    · obtain ⟨entry, hmemEntry, rfl⟩ := List.mem_map.1 hmem
      exact hentry entry hmemEntry
    · rintro ⟨row, hrowMem, hstatus, rfl⟩
      obtain ⟨offset, hlookup, -⟩ := hrow hrowMem hstatus
      exact List.mem_map_of_mem (mem_of_lookup_eq_some hlookup)
    · intro row hrowMem hstatus offset hoffset hle
      obtain ⟨offset', hlookup, -, -, -, hfresh⟩ := hrow hrowMem hstatus
      have hkept : row.stale elapsed = false := by
        rw [PendingTx.stale, hoffset]
        exact decide_eq_false (Nat.not_lt.2 hle)
      obtain rfl := Option.some.inj (hoffset.symm.trans (hfresh hkept))
      exact mem_of_lookup_eq_some hlookup
    · refine (hvalue entry hmem).2.2.imp_right fun hbaseLe before hbefore => ?_
      exact (hpersisted before hbefore).trans ((le_max_left _ _).trans hbaseLe)
    · rw [hassigned.rows]
      exact List.forall₂_map_right_iff.2 (List.forall₂_same.2 fun row hrowMem =>
        rescheduled_assignedFrom hkeyed hrowMem (hrow hrowMem))
    · exact (hpersisted before hbefore).trans ((le_max_left _ _).trans hassigned.largest)

/-- A call that finds no parts changes nothing. -/
theorem ensureRebuildScheduleGeneration_none
    (h : ensureRebuildScheduleGeneration draws tip run = .ok (run', none)) : run' = run := by
  unfold ensureRebuildScheduleGeneration at h
  split_ifs at h
  · exact (Prod.mk.inj (Except.ok.inj h)).1.symm
  · simp only [bind_eq_ok, ensure_eq_ok, exists_const] at h
    obtain ⟨survey, -, -, persistedBase, -, assigned, -, hresult⟩ := h
    cases (Prod.mk.inj (pure_eq_ok.1 hresult)).2

theorem Extends.ladder (hladder : Ladder run) (h : Extends tip run run' generation) :
    Ladder run' := by
  obtain ⟨largest, hlargest, hentries, hbefore⟩ := h.largest
  have hcolumn {α : Type} (column : PendingTx → α)
      (hsame : ∀ row offset, column { row with rebuildBlockOffset := offset } = column row) :
      run'.pending.map column = run.pending.map column := by
    refine map_eq_of_forall₂ h.rows fun row row' hrow => ?_
    rw [hrow.1, hsame]
  refine ⟨?_, fun hnone => ?_, fun row' hrow' offset hoffset => ⟨largest, hlargest, ?_⟩⟩
  · exact hladder.keyed.of_columns (hcolumn _ fun _ _ => rfl) (hcolumn _ fun _ _ => rfl)
  · rw [h.persistedOrigin] at hnone
    cases hnone
  · obtain ⟨row, hrow, -, hwaits, hother⟩ := exists_mem_left h.rows hrow'
    by_cases hstatus : row.status = .needsResign
    · obtain ⟨assigned, hassigned, hmem⟩ := hwaits hstatus
      obtain rfl := Option.some.inj (hoffset.symm.trans hassigned)
      exact hentries _ hmem
    · rw [hother hstatus] at hoffset
      obtain ⟨before, hsome, hle⟩ := hladder.bounded row hrow offset hoffset
      exact hle.trans (hbefore before hsome)

/-- The errors of a ladder that is incomplete. -/
def ladderErrors : List String :=
  ["Migration recovery schedule metadata is incomplete",
    "Migration recovery schedule maximum is below a persisted part offset"]

/-- Reading the rows fails for other reasons. -/
theorem survey_not_refused {rows : List PendingTx} {elapsedCursor : ℕ} {survey : Survey}
    {error : String} (h : rows.foldlM (surveyRow elapsedCursor) survey = .error error) :
    error ∉ ladderErrors := by
  obtain ⟨_, row, -, hround⟩ := exists_of_foldlM_eq_error h
  obtain hpart | ⟨partIndex, -, hround⟩ := bind_eq_error.1 hround
  · cases hindex : row.partIndex with
    | none =>
      obtain rfl : _ = error :=
        Except.error.inj ((congrArg (orError · _) hindex).symm.trans hpart)
      decide
    | some index => simp [hindex] at hpart
  · split at hround
    · split_ifs at hround <;> cases hround
    · cases hround

/-- Assigning offsets fails for other reasons. -/
theorem assign_not_refused {baseOffset : ℕ} {survey : Survey} {error : String}
    (h : assignOffsets draws run baseOffset survey = .error error) : error ∉ ladderErrors := by
  unfold assignOffsets at h
  split_ifs at h
  obtain hfresh | ⟨freshOffsets, -, h⟩ := bind_eq_error.1 h
  · obtain hmissing | ⟨-, -, hpure⟩ := bind_eq_error.1 hfresh
    · obtain ⟨-, rfl⟩ := ensure_eq_error.1 hmissing
      decide
    · cases hpure
  · obtain ⟨_, part, -, hround⟩ := exists_of_foldlM_eq_error h
    obtain hoverflow | ⟨sum, -, hround⟩ := bind_eq_error.1 hround
    · obtain hoverflow | ⟨-, -, hpure⟩ := bind_eq_error.1 hoverflow
      · obtain ⟨-, rfl⟩ := ensure_eq_error.1 hoverflow
        decide
      · cases hpure
    · obtain hchanged | ⟨-, -, hpure⟩ := bind_eq_error.1 hround
      · obtain ⟨-, rfl⟩ := ensure_eq_error.1 hchanged
        decide
      · cases hpure

section Surveyed

variable {elapsedCursor : ℕ} {survey : Survey}

/-- Without an origin there is no largest offset, and so no offset. -/
theorem Ladder.metadata_complete (hladder : Ladder run)
    (hsurvey : Surveyed elapsedCursor (needsResignRows run) ⟨[], [], 0, false⟩ survey) :
    ¬ (run.recoveryScheduleOriginHeight = none ∧
      (run.recoveryScheduleMaxBlockOffset.isSome ∨ survey.anyPersistedOffset)) := by
  rintro ⟨horigin, hpersisted⟩
  have hlargest := hladder.origin horigin
  rw [hlargest, hsurvey.persisted] at hpersisted
  obtain hpersisted | hpersisted := hpersisted
  · cases hpersisted
  · obtain ⟨row, hrow, hsome⟩ : ∃ row ∈ needsResignRows run, row.rebuildBlockOffset.isSome := by
      simpa using hpersisted
    obtain ⟨offset, hoffset⟩ := Option.isSome_iff_exists.1 hsome
    obtain ⟨largest, hsomeLargest, -⟩ :=
      hladder.bounded row (mem_needsResignRows.1 hrow).1 offset hoffset
    rw [hlargest] at hsomeLargest
    cases hsomeLargest

/-- The largest offset of the run is at least every offset of a row. -/
theorem Ladder.observed_le (hladder : Ladder run)
    (hsurvey : Surveyed elapsedCursor (needsResignRows run) ⟨[], [], 0, false⟩ survey)
    {largest : ℕ} (hlargest : run.recoveryScheduleMaxBlockOffset = some largest) :
    survey.observedMaxOffset ≤ largest := by
  refine hsurvey.observed largest (Nat.zero_le _) fun row hrow => ?_
  cases hoffset : row.rebuildBlockOffset with
  | none => exact Nat.zero_le _
  | some offset =>
    obtain ⟨largest', hsome, hle⟩ :=
      hladder.bounded row (mem_needsResignRows.1 hrow).1 offset hoffset
    obtain rfl := Option.some.inj (hlargest.symm.trans hsome)
    exact hle

end Surveyed

theorem Ladder.not_refused (hladder : Ladder run) {error : String}
    (h : ensureRebuildScheduleGeneration draws tip run = .error error) :
    error ∉ ladderErrors := by
  unfold ensureRebuildScheduleGeneration at h
  split_ifs at h
  obtain hsurveyError | ⟨survey, hfold, h⟩ := bind_eq_error.1 h
  · exact survey_not_refused hsurveyError
  have hsurvey := surveyed (nodup_needsResignRows hladder.keyed) hfold
  obtain hmetadata | ⟨-, -, h⟩ := bind_eq_error.1 h
  · exact absurd (hladder.metadata_complete hsurvey) (ensure_eq_error.1 hmetadata).1
  obtain hbase | ⟨persistedBase, -, h⟩ := bind_eq_error.1 h
  · cases hlargest : run.recoveryScheduleMaxBlockOffset with
    | none =>
      rw [hlargest] at hbase
      cases hbase
    | some largest =>
      have hobserved := hladder.observed_le hsurvey hlargest
      rw [hlargest, persistedBaseOffset, ensure_of _ hobserved] at hbase
      cases hbase
  obtain hassign | ⟨assigned, -, h⟩ := bind_eq_error.1 h
  · exact assign_not_refused hassign
  · cases h

end Call

end VizorWallet.Migration.Store
