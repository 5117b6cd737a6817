import VizorWallet.Library.Shuffle
import VizorWallet.Migration.Store.Parts

/-!
# The schedule of the parts

A schedule lists the parts in the order of their broadcasts, with the blocks since the start. It is
planned from the approved values, checked against them, and read back into them.

## Main definitions

* `plannedTransferScheduleForPartsWithPolicy` — a schedule for some parts.
* `targetValuesFromSchedule` — the values that a schedule is about.
* `Describes` — the entries of a schedule are the parts of a list of values.

## Main results

* `targetValuesFromSchedule_of_describes` — the values are read back.
* `schedule_round_trip` — planned schedules are accepted and read back, and accepted schedules with
  part indexes are read back as what they were checked against.
-/

namespace VizorWallet.Migration.Store

/-! ## Planning -/

/-- `saturating_add` on `u32` -/
def saturatingAdd (a b : ℕ) : ℕ := min (a + b) (2 ^ 32 - 1)

/-- The cumulative offsets, from a position in the samples and the blocks that have elapsed. -/
def randomScheduleBlockOffsets {maxDelayBlocks : ℕ} (sampler : Sampler maxDelayBlocks) :
    ℕ → ℕ → ℕ → List ℕ
  | 0, _, _ => []
  | count + 1, position, elapsedBlocks =>
    let (delay, next) := sampler.draw position
    let elapsedBlocks := saturatingAdd elapsedBlocks delay
    elapsedBlocks :: randomScheduleBlockOffsets sampler count next elapsedBlocks

def denseMigrationPartThreshold : ℕ := 10

def scheduleParametersWithPolicyForPartCount (network : WalletNetwork)
    (timingPolicy : MigrationTimingPolicy) (partCount : ℕ) : ℕ × ℕ :=
  let (meanDelayBlocks, maxDelayBlocks) := scheduleParametersWithPolicy network timingPolicy
  let effectiveMean :=
    if partCount > denseMigrationPartThreshold then max (meanDelayBlocks / 2) 1 else meanDelayBlocks
  (effectiveMean, maxDelayBlocks)

/-- The samples are those of the mean delay; the loop rejects those above the largest delay. -/
def plannedTransferScheduleForPartsWithPolicy (parts : List (ℕ × ℕ)) (network : WalletNetwork)
    (timingPolicy : MigrationTimingPolicy) (shuffle : Shuffle (ℕ × ℕ))
    (sampler : Sampler (scheduleParametersWithPolicyForPartCount network timingPolicy
      parts.length).2) : List MigrationScheduleEntry :=
  let parts := shuffle.shuffle parts
  List.zipWith (fun part blockOffset => ⟨some part.1, part.2, blockOffset⟩) parts
    (randomScheduleBlockOffsets sampler parts.length 0 0)

/-- The parts of a list of values: `(0, v0) .. (k - 1, v(k - 1))`. -/
def partsOf (values : List ℕ) : List (ℕ × ℕ) := values.zipIdx.map Prod.swap

/-! ## Reading back -/

/-- One entry of the loop of `target_values_from_schedule`. -/
def recordValue (targetValues : List (Option ℕ)) (entry : MigrationScheduleEntry) :
    Except String (List (Option ℕ)) := do
  let partIndex ← orError entry.partIndex "all schedule entries were checked above"
  let slot ← orError targetValues[partIndex]?
    "Approved migration schedule part index is outside the plan"
  ensure slot.isNone "Approved migration schedule part index is duplicated"
  return targetValues.set partIndex (some entry.value)

def targetValuesFromSchedule (schedule : List MigrationScheduleEntry) :
    Except String (List ℕ) :=
  if schedule.isEmpty then .ok []
  else do
    ensure (¬ schedule.all (·.partIndex.isNone))
      "Approved migration schedule does not identify migration parts"
    ensure (schedule.all (·.partIndex.isSome))
      "Approved migration schedule part indexes are incomplete"
    let targetValues ← schedule.foldlM recordValue (List.replicate schedule.length none)
    targetValues.mapM (orError · "Approved migration schedule part indexes are incomplete")

/-! ## Schedules that describe values -/

/-- The entries are the parts of the values. -/
structure Describes (schedule : List MigrationScheduleEntry) (values : List ℕ) : Prop where
  length : schedule.length = values.length
  part : ∀ entry ∈ schedule, ∃ partIndex, entry.partIndex = some partIndex ∧
    values[partIndex]? = some entry.value
  nodup : (schedule.map (·.partIndex)).Nodup

variable {schedule : List MigrationScheduleEntry} {values : List ℕ}

theorem Describes.all_isSome (h : Describes schedule values) :
    schedule.all (·.partIndex.isSome) := by
  refine List.all_eq_true.2 fun entry hentry => ?_
  obtain ⟨partIndex, hpart, -⟩ := h.part entry hentry
  rw [hpart]
  rfl

/-- Each part has an entry: there are as many entries as parts. -/
theorem Describes.exists_entry (h : Describes schedule values) {partIndex : ℕ}
    (hpart : partIndex < values.length) : ∃ entry ∈ schedule, entry.partIndex = some partIndex := by
  have hsub : schedule.map (·.partIndex) ⊆ (List.range values.length).map some := by
    intro index hindex
    obtain ⟨entry, hentry, rfl⟩ := List.mem_map.1 hindex
    obtain ⟨other, hother, hvalue⟩ := h.part entry hentry
    exact hother ▸ List.mem_map_of_mem (List.mem_range.2 (List.getElem?_eq_some_iff.1 hvalue).1)
  have hperm : (schedule.map (·.partIndex)).Perm ((List.range values.length).map some) := by
    refine (h.nodup.subperm hsub).perm_of_length_le ?_
    simp [h.length]
  obtain ⟨entry, hentry, hindex⟩ := List.mem_map.1
    (hperm.mem_iff.2 (List.mem_map_of_mem (List.mem_range.2 hpart)))
  exact ⟨entry, hentry, hindex⟩

/-- The slots that some entries have filled. -/
structure Filled (done : List MigrationScheduleEntry) (values : List ℕ)
    (slots : List (Option ℕ)) : Prop where
  length : slots.length = values.length
  empty : ∀ partIndex < values.length, (∀ entry ∈ done, entry.partIndex ≠ some partIndex) →
    slots[partIndex]? = some none
  filled : ∀ entry ∈ done, ∀ partIndex, entry.partIndex = some partIndex →
    slots[partIndex]? = some values[partIndex]?

/-- One entry whose part has no entry yet. -/
theorem Filled.record {done : List MigrationScheduleEntry} {slots : List (Option ℕ)}
    (h : Filled done values slots) {entry : MigrationScheduleEntry} {partIndex : ℕ}
    (hpart : entry.partIndex = some partIndex) (hvalue : values[partIndex]? = some entry.value)
    (hnew : ∀ other ∈ done, other.partIndex ≠ some partIndex) :
    recordValue slots entry = .ok (slots.set partIndex (some entry.value)) ∧
      Filled (done ++ [entry]) values (slots.set partIndex (some entry.value)) := by
  have hlt : partIndex < values.length := (List.getElem?_eq_some_iff.1 hvalue).1
  have hslot : slots[partIndex]? = some none := h.empty partIndex hlt hnew
  refine ⟨?_, ?_, fun other hother hdone => ?_, fun other hother index hindex => ?_⟩
  · simp [recordValue, hpart, hslot, orError, ensure]
  · rw [List.length_set, h.length]
  · have hne : partIndex ≠ other := fun hsame =>
      hdone entry (List.mem_append_right _ List.mem_cons_self) (hsame ▸ hpart)
    rw [List.getElem?_set_ne hne]
    exact h.empty other hother fun earlier hearlier =>
      hdone earlier (List.mem_append_left _ hearlier)
  · obtain hearlier | hlast := List.mem_append.1 hother
    · have hne : partIndex ≠ index := fun hsame => hnew other hearlier (hsame ▸ hindex)
      rw [List.getElem?_set_ne hne]
      exact h.filled other hearlier index hindex
    · obtain rfl := List.mem_singleton.1 hlast
      obtain rfl := Option.some.inj (hpart.symm.trans hindex)
      rw [List.getElem?_set_self (h.length ▸ hlt), hvalue]

/-- The whole loop. -/
theorem Filled.foldlM {todo done : List MigrationScheduleEntry} {slots : List (Option ℕ)}
    (h : Filled done values slots)
    (hpart : ∀ entry ∈ todo, ∃ partIndex, entry.partIndex = some partIndex ∧
      values[partIndex]? = some entry.value)
    (hnodup : ((done ++ todo).map (·.partIndex)).Nodup) :
    ∃ slots', todo.foldlM recordValue slots = .ok slots' ∧ Filled (done ++ todo) values slots' := by
  induction todo generalizing done slots with
  | nil => exact ⟨slots, rfl, by rwa [List.append_nil]⟩
  | cons entry rest ih =>
    obtain ⟨⟨partIndex, hindex, hvalue⟩, hrest⟩ := List.forall_mem_cons.1 hpart
    have hnew : ∀ other ∈ done, other.partIndex ≠ some partIndex := by
      rw [List.map_append, List.nodup_append'] at hnodup
      intro other hother hsame
      exact hnodup.2.2 (List.mem_map_of_mem hother)
        (List.mem_map.2 ⟨entry, List.mem_cons_self, hindex.trans hsame.symm⟩)
    obtain ⟨hrecord, hfilled⟩ := h.record hindex hvalue hnew
    obtain ⟨slots', hslots', hfilled'⟩ := ih hfilled hrest (by simpa using hnodup)
    refine ⟨slots', ?_, by simpa using hfilled'⟩
    rw [List.foldlM_cons, hrecord]
    exact hslots'

/-- The values are read back. -/
theorem targetValuesFromSchedule_of_describes (h : Describes schedule values) :
    targetValuesFromSchedule schedule = .ok values := by
  unfold targetValuesFromSchedule
  cases schedule with
  | nil =>
    obtain rfl := List.length_eq_zero_iff.1 h.length.symm
    rfl
  | cons first rest =>
    have hsome := h.all_isSome
    have hnot : ¬ (first :: rest).all (·.partIndex.isNone) := by
      intro hnone
      obtain ⟨partIndex, hpart, -⟩ := h.part first List.mem_cons_self
      have hfirst := List.all_eq_true.1 hnone first List.mem_cons_self
      rw [hpart] at hfirst
      cases hfirst
    have hstart : Filled [] values (List.replicate (first :: rest).length none) := by
      refine ⟨by rw [List.length_replicate, h.length], fun partIndex hlt _ => ?_, nofun⟩
      rw [List.getElem?_replicate, if_pos (h.length ▸ hlt)]
    obtain ⟨slots, hslots, hfilled⟩ := hstart.foldlM h.part h.nodup
    have hvalues : slots = values.map some := by
      refine List.ext_getElem? fun index => ?_
      rw [List.getElem?_map]
      by_cases hlt : index < values.length
      · obtain ⟨entry, hentry, hindex⟩ := h.exists_entry hlt
        rw [hfilled.filled entry hentry index hindex, List.getElem?_eq_getElem hlt]
        rfl
      · rw [List.getElem?_eq_none (hfilled.length ▸ not_lt.1 hlt),
          List.getElem?_eq_none (not_lt.1 hlt)]
        rfl
    have hread : slots.mapM (fun slot => orError (id slot)
        "Approved migration schedule part indexes are incomplete") = .ok values := by
      rw [mapM_orError_eq_ok, List.map_id, hvalues]
    rw [if_neg (by simp), ensure_of _ hnot, ok_bind, ensure_of _ hsome, ok_bind, hslots, ok_bind]
    exact hread

/-! ## The checks -/

theorem validatePartIndexes_of {seen : List ℕ} {rest : List MigrationScheduleEntry}
    (hpart : ∀ entry ∈ rest, ∃ partIndex, entry.partIndex = some partIndex ∧
      values[partIndex]? = some entry.value)
    (hnodup : (seen.map some ++ rest.map (·.partIndex)).Nodup) :
    validatePartIndexes values seen rest = .ok () := by
  induction rest generalizing seen with
  | nil => rfl
  | cons entry rest ih =>
    obtain ⟨⟨partIndex, hindex, hvalue⟩, hrest⟩ := List.forall_mem_cons.1 hpart
    have hnew : partIndex ∉ seen := by
      intro hseen
      refine (List.nodup_append'.1 hnodup).2.2 (List.mem_map_of_mem hseen) ?_
      exact List.mem_map.2 ⟨entry, List.mem_cons_self, hindex⟩
    have hnext : ((partIndex :: seen).map some ++ rest.map (·.partIndex)).Nodup := by
      rw [List.map_cons, List.cons_append, ← hindex]
      exact List.perm_middle.nodup_iff.1 hnodup
    rw [validatePartIndexes, hindex, orError_some, ok_bind, hvalue, orError_some, ok_bind,
      ensure_of _ hnew, ok_bind, ensure_of _ rfl, ok_bind]
    exact ih hrest hnext

theorem of_validatePartIndexes {seen : List ℕ} {rest : List MigrationScheduleEntry}
    (h : validatePartIndexes values seen rest = .ok ()) (hseen : seen.Nodup) :
    (∀ entry ∈ rest, ∃ partIndex, entry.partIndex = some partIndex ∧
      values[partIndex]? = some entry.value) ∧
    (seen.map some ++ rest.map (·.partIndex)).Nodup := by
  induction rest generalizing seen with
  | nil =>
    refine ⟨nofun, ?_⟩
    rw [List.map_nil, List.append_nil]
    exact hseen.map (Option.some_injective ℕ)
  | cons entry rest ih =>
    simp only [validatePartIndexes, bind_eq_ok, orError_eq_ok, ensure_eq_ok, exists_const] at h
    obtain ⟨partIndex, hindex, value, hvalue, hnew, rfl, hrest⟩ := h
    obtain ⟨hparts, hnodup⟩ := ih hrest (List.nodup_cons.2 ⟨hnew, hseen⟩)
    refine ⟨List.forall_mem_cons.2 ⟨⟨partIndex, hindex, hvalue⟩, hparts⟩, ?_⟩
    rw [List.map_cons, hindex]
    exact List.perm_middle.nodup_iff.2 hnodup

/-- The blocks between consecutive broadcasts. -/
def Gaps (maxDelayBlocks : ℕ) : ℕ → List ℕ → Prop
  | _, [] => True
  | previousOffset, offset :: rest =>
    previousOffset ≤ offset ∧ offset ≤ previousOffset + maxDelayBlocks ∧
      Gaps maxDelayBlocks offset rest

theorem validateGaps_iff {maxDelayBlocks previousOffset : ℕ} :
    validateGaps maxDelayBlocks previousOffset schedule = .ok () ↔
      Gaps maxDelayBlocks previousOffset (schedule.map (·.blockOffset)) := by
  induction schedule generalizing previousOffset with
  | nil => exact ⟨fun _ => trivial, fun _ => rfl⟩
  | cons entry rest ih =>
    simp only [validateGaps, checkedSub, bind_eq_ok, ensure_eq_ok, exists_const, pure_eq_ok,
      List.map_cons, Gaps, ih]
    constructor
    · rintro ⟨gap, ⟨hle, rfl⟩, hgap, hrest⟩
      exact ⟨hle, by omega, hrest⟩
    · rintro ⟨hle, hgap, hrest⟩
      exact ⟨_, ⟨hle, rfl⟩, by omega, hrest⟩

/-- Draws below the largest delay make small gaps, also where the offset saturates. -/
theorem gaps_randomScheduleBlockOffsets {maxDelayBlocks : ℕ} (sampler : Sampler maxDelayBlocks)
    (count position : ℕ) {elapsedBlocks : ℕ} (h : elapsedBlocks < 2 ^ 32) :
    Gaps maxDelayBlocks elapsedBlocks
      (randomScheduleBlockOffsets sampler count position elapsedBlocks) := by
  induction count generalizing position elapsedBlocks with
  | zero => trivial
  | succ count ih =>
    have hdelay := sampler.draw_le position
    set delay := (sampler.draw position).1
    have hnext : saturatingAdd elapsedBlocks delay < 2 ^ 32 := by
      unfold saturatingAdd
      omega
    have hle : elapsedBlocks ≤ saturatingAdd elapsedBlocks delay := by
      unfold saturatingAdd
      omega
    have hgap : saturatingAdd elapsedBlocks delay ≤ elapsedBlocks + maxDelayBlocks := by
      unfold saturatingAdd
      omega
    exact ⟨hle, hgap, ih _ hnext⟩

theorem length_randomScheduleBlockOffsets {maxDelayBlocks : ℕ} (sampler : Sampler maxDelayBlocks)
    (count position elapsedBlocks : ℕ) :
    (randomScheduleBlockOffsets sampler count position elapsedBlocks).length = count := by
  induction count generalizing position elapsedBlocks with
  | zero => rfl
  | succ count ih => exact congrArg (· + 1) (ih _ _)

/-! ## Planned schedules -/

theorem map_zipWith_entry {parts : List (ℕ × ℕ)} {offsets : List ℕ}
    (h : offsets.length = parts.length) :
    let schedule : List MigrationScheduleEntry :=
      List.zipWith (fun part blockOffset => ⟨some part.1, part.2, blockOffset⟩) parts offsets
    schedule.map (fun entry => (entry.partIndex, entry.value)) =
        parts.map (fun part => (some part.1, part.2)) ∧
      schedule.map (·.blockOffset) = offsets := by
  induction parts generalizing offsets with
  | nil =>
    obtain rfl := List.length_eq_zero_iff.1 h
    exact ⟨rfl, rfl⟩
  | cons part rest ih =>
    cases offsets with
    | nil => cases h
    | cons offset offsets =>
      obtain ⟨hparts, hoffsets⟩ := ih (Nat.succ.inj h)
      exact ⟨congrArg (_ :: ·) hparts, congrArg (offset :: ·) hoffsets⟩

/-- The entries of a planned schedule are the shuffled parts. -/
theorem map_plannedTransferSchedule {parts : List (ℕ × ℕ)} {network : WalletNetwork}
    {timingPolicy : MigrationTimingPolicy} {shuffle : Shuffle (ℕ × ℕ)}
    {sampler : Sampler (scheduleParametersWithPolicyForPartCount network timingPolicy
      parts.length).2} :
    let schedule := plannedTransferScheduleForPartsWithPolicy parts network timingPolicy shuffle
      sampler
    schedule.map (fun entry => (entry.partIndex, entry.value)) =
        (shuffle.shuffle parts).map (fun part => (some part.1, part.2)) ∧
      Gaps (scheduleParametersWithPolicy network timingPolicy).2 0
        (schedule.map (·.blockOffset)) := by
  obtain ⟨hparts, hoffsets⟩ := @map_zipWith_entry (shuffle.shuffle parts)
    (randomScheduleBlockOffsets sampler (shuffle.shuffle parts).length 0 0)
    (length_randomScheduleBlockOffsets _ _ _ _)
  refine ⟨hparts, ?_⟩
  dsimp only [plannedTransferScheduleForPartsWithPolicy]
  rw [hoffsets]
  exact gaps_randomScheduleBlockOffsets sampler _ 0 (by norm_num)

theorem map_fst_partsOf (values : List ℕ) :
    (partsOf values).map Prod.fst = List.range values.length := by
  rw [partsOf, List.map_map, List.range_eq_range']
  exact List.zipIdx_map_snd 0 values

theorem mem_partsOf {values : List ℕ} {part : ℕ × ℕ} :
    part ∈ partsOf values ↔ values[part.1]? = some part.2 := by
  rw [partsOf, List.mem_map]
  constructor
  · rintro ⟨entry, hentry, rfl⟩
    exact List.mem_zipIdx_iff_getElem?.1 hentry
  · intro hvalue
    exact ⟨part.swap, List.mem_zipIdx_iff_getElem?.2 hvalue, Prod.swap_swap part⟩

/-- Shuffled parts describe their values, whatever the offsets are. -/
theorem describes_of_perm {parts : List (ℕ × ℕ)} (hperm : parts.Perm (partsOf values))
    (hparts : schedule.map (fun entry => (entry.partIndex, entry.value)) =
      parts.map (fun part => (some part.1, part.2))) : Describes schedule values where
  length := by
    have hlength := congrArg List.length hparts
    rw [List.length_map, List.length_map, hperm.length_eq] at hlength
    rw [hlength, partsOf, List.length_map, List.length_zipIdx]
  part entry hentry := by
    have hmem : (entry.partIndex, entry.value) ∈ parts.map (fun part => (some part.1, part.2)) :=
      hparts ▸ List.mem_map_of_mem hentry
    obtain ⟨part, hpart, hsame⟩ := List.mem_map.1 hmem
    obtain ⟨hindex, hvalue⟩ := Prod.mk.inj hsame
    exact ⟨part.1, hindex.symm, hvalue ▸ mem_partsOf.1 (hperm.mem_iff.1 hpart)⟩
  nodup := by
    have hindexes : schedule.map (·.partIndex) = (parts.map Prod.fst).map some := by
      have hfst := congrArg (List.map Prod.fst) hparts
      rw [List.map_map, List.map_map] at hfst
      rw [List.map_map]
      exact hfst
    rw [hindexes]
    refine List.Nodup.map (Option.some_injective ℕ) ?_
    rw [(hperm.map Prod.fst).nodup_iff, map_fst_partsOf]
    exact List.nodup_range

theorem Describes.values_perm (h : Describes schedule values) :
    (schedule.map (·.value)).Perm values := by
  have hsub : schedule.map (fun entry => (entry.partIndex, entry.value)) ⊆
      (partsOf values).map (fun part => (some part.1, part.2)) := by
    intro pair hpair
    obtain ⟨entry, hentry, rfl⟩ := List.mem_map.1 hpair
    obtain ⟨partIndex, hindex, hvalue⟩ := h.part entry hentry
    exact List.mem_map.2 ⟨(partIndex, entry.value), mem_partsOf.2 hvalue, by rw [hindex]⟩
  have hnodup : (schedule.map (fun entry => (entry.partIndex, entry.value))).Nodup := by
    refine List.Nodup.of_map Prod.fst ?_
    rw [List.map_map]
    exact h.nodup
  have hperm := (hnodup.subperm hsub).perm_of_length_le (by simp [h.length, partsOf])
  have hvalues := hperm.map Prod.snd
  rw [List.map_map, List.map_map] at hvalues
  have hsnd : (partsOf values).map Prod.snd = values := by
    rw [partsOf, List.map_map]
    exact List.zipIdx_map_fst 0 values
  rw [← hsnd]
  exact hvalues

theorem mergeSort_eq_of_perm {a b : List ℕ} (h : a.Perm b) : a.mergeSort = b.mergeSort := by
  have hsorted (l : List ℕ) : l.mergeSort.Pairwise (· ≤ ·) := List.pairwise_mergeSort' (· ≤ ·) l
  exact (((List.mergeSort_perm a _).trans h).trans (List.mergeSort_perm b _).symm).eq_of_pairwise'
    (hsorted a) (hsorted b)

/-- A schedule is accepted when it describes the values and its gaps are small. -/
theorem validateScheduleWithPolicy_of {network : WalletNetwork}
    {timingPolicy : MigrationTimingPolicy} (h : Describes schedule values)
    (hgaps : Gaps (scheduleParametersWithPolicy network timingPolicy).2 0
      (schedule.map (·.blockOffset))) :
    validateScheduleWithPolicy schedule values network timingPolicy = .ok () := by
  have hindexes : validateSchedulePartIndexes schedule values = .ok () := by
    unfold validateSchedulePartIndexes
    split_ifs
    · rfl
    · rw [ensure_of _ h.all_isSome, ok_bind]
      exact validatePartIndexes_of h.part h.nodup
  rw [validateScheduleWithPolicy, ensure_of _ h.length, ok_bind,
    ensure_of _ (mergeSort_eq_of_perm h.values_perm), ok_bind, hindexes, ok_bind]
  exact validateGaps_iff.2 hgaps

/-- An accepted schedule with part indexes describes the values that it was checked against. -/
theorem of_validateScheduleWithPolicy {network : WalletNetwork}
    {timingPolicy : MigrationTimingPolicy} (hsome : ∀ entry ∈ schedule, entry.partIndex.isSome)
    (h : validateScheduleWithPolicy schedule values network timingPolicy = .ok ()) :
    Describes schedule values ∧ Gaps (scheduleParametersWithPolicy network timingPolicy).2 0
      (schedule.map (·.blockOffset)) := by
  simp only [validateScheduleWithPolicy, bind_eq_ok, ensure_eq_ok, exists_const] at h
  obtain ⟨hlength, -, _, hindexes, hgaps⟩ := h
  refine ⟨?_, validateGaps_iff.1 hgaps⟩
  cases schedule with
  | nil => exact ⟨hlength, by simp, List.nodup_nil⟩
  | cons first rest =>
    have hnot : ¬ (first :: rest).all (·.partIndex.isNone) := by
      intro hnone
      have hfirst := List.all_eq_true.1 hnone first List.mem_cons_self
      have hindex := hsome first List.mem_cons_self
      rw [Option.isNone_iff_eq_none.1 hfirst] at hindex
      cases hindex
    unfold validateSchedulePartIndexes at hindexes
    rw [if_neg hnot] at hindexes
    simp only [bind_eq_ok, ensure_eq_ok, exists_const] at hindexes
    obtain ⟨hparts, hnodup⟩ := of_validatePartIndexes hindexes.2 List.nodup_nil
    exact ⟨hlength, hparts, hnodup⟩

theorem Gaps.forall_le {maxDelayBlocks previousOffset : ℕ} {offsets : List ℕ}
    (h : Gaps maxDelayBlocks previousOffset offsets) :
    ∀ offset ∈ offsets, previousOffset ≤ offset := by
  induction offsets generalizing previousOffset with
  | nil => exact nofun
  | cons offset rest ih =>
    obtain ⟨hle, -, hrest⟩ := h
    exact List.forall_mem_cons.2 ⟨hle, fun other hother => hle.trans (ih hrest other hother)⟩

/-- Small gaps have an order. -/
theorem Gaps.pairwise {maxDelayBlocks previousOffset : ℕ} {offsets : List ℕ}
    (h : Gaps maxDelayBlocks previousOffset offsets) : offsets.Pairwise (· ≤ ·) := by
  induction offsets generalizing previousOffset with
  | nil => exact .nil
  | cons offset rest ih => exact List.pairwise_cons.2 ⟨h.2.2.forall_le, ih h.2.2⟩

/-- Planned schedules are read back as their values and accepted for them, and an accepted schedule
with part indexes is read back as the values that it was checked against. -/
theorem schedule_round_trip :
    (∀ (values : List ℕ) (network : WalletNetwork) (timingPolicy : MigrationTimingPolicy)
      (shuffle : Shuffle (ℕ × ℕ)) (sampler : Sampler (scheduleParametersWithPolicyForPartCount
        network timingPolicy (partsOf values).length).2),
      let schedule := plannedTransferScheduleForPartsWithPolicy (partsOf values) network
        timingPolicy shuffle sampler
      targetValuesFromSchedule schedule = .ok values ∧
        validateScheduleWithPolicy schedule values network timingPolicy = .ok ()) ∧
    ∀ (schedule : List MigrationScheduleEntry) (values : List ℕ) (network : WalletNetwork)
      (timingPolicy : MigrationTimingPolicy), (∀ entry ∈ schedule, entry.partIndex.isSome) →
      validateScheduleWithPolicy schedule values network timingPolicy = .ok () →
      targetValuesFromSchedule schedule = .ok values ∧
        (schedule.map (·.blockOffset)).Pairwise (· ≤ ·) ∧
        Gaps (scheduleParametersWithPolicy network timingPolicy).2 0
          (schedule.map (·.blockOffset)) := by
  refine ⟨fun values network timingPolicy shuffle sampler => ?_,
    fun schedule values network timingPolicy hsome hvalid => ?_⟩
  · obtain ⟨hparts, hgaps⟩ := @map_plannedTransferSchedule (partsOf values) network timingPolicy
      shuffle sampler
    have hdescribes := describes_of_perm (shuffle.perm (partsOf values)) hparts
    exact ⟨targetValuesFromSchedule_of_describes hdescribes,
      validateScheduleWithPolicy_of hdescribes hgaps⟩
  · obtain ⟨hdescribes, hgaps⟩ := of_validateScheduleWithPolicy hsome hvalid
    exact ⟨targetValuesFromSchedule_of_describes hdescribes, hgaps.pairwise, hgaps⟩

/-- A shuffle that reverses the parts. -/
def reversing : Shuffle (ℕ × ℕ) := ⟨List.reverse, List.reverse_perm⟩

/-- Delays of one to four blocks, in turns. -/
def sampleDelays : Sampler (scheduleParametersWithPolicyForPartCount .main .standard
    (partsOf [7, 7, 5]).length).2 :=
  .ofAccepted (fun position => position % 4 + 1) fun position =>
    (Nat.mod_lt position (by norm_num)).trans_le (by decide)

/-- The planned schedule of two parts of one value and a smaller one. -/
def reversedSchedule : List MigrationScheduleEntry :=
  [⟨some 2, 5, 1⟩, ⟨some 1, 7, 3⟩, ⟨some 0, 7, 6⟩]

theorem schedule_round_trip_sample :
    plannedTransferScheduleForPartsWithPolicy (partsOf [7, 7, 5]) .main .standard reversing
        sampleDelays = reversedSchedule ∧
      validateScheduleWithPolicy reversedSchedule [7, 7, 5] .main .standard = .ok () ∧
      targetValuesFromSchedule reversedSchedule = .ok [7, 7, 5] ∧
      [1, 3, 6].Pairwise (· ≤ ·) ∧
      Gaps (scheduleParametersWithPolicy .main .standard).2 0 [1, 3, 6] := by
  have hdraw (position : ℕ) : sampleDelays.draw position = (position % 4 + 1, position + 1) :=
    Sampler.draw_ofAccepted _ _ _
  have hoffsets : randomScheduleBlockOffsets sampleDelays 3 0 0 = [1, 3, 6] := by
    simp [randomScheduleBlockOffsets, hdraw, saturatingAdd]
  have hzip : plannedTransferScheduleForPartsWithPolicy (partsOf [7, 7, 5]) .main .standard
      reversing sampleDelays =
      List.zipWith (fun part blockOffset => ⟨some part.1, part.2, blockOffset⟩)
        [(2, 5), (1, 7), (0, 7)] (randomScheduleBlockOffsets sampleDelays 3 0 0) := rfl
  have hplanned : plannedTransferScheduleForPartsWithPolicy (partsOf [7, 7, 5]) .main .standard
      reversing sampleDelays = reversedSchedule := by
    rw [hzip, hoffsets]
    rfl
  obtain ⟨hplan, haccepted⟩ := schedule_round_trip
  have hvalid := (hplan [7, 7, 5] .main .standard reversing sampleDelays).2
  rw [hplanned] at hvalid
  exact ⟨hplanned, hvalid, haccepted reversedSchedule [7, 7, 5] .main .standard (by decide) hvalid⟩

end VizorWallet.Migration.Store
