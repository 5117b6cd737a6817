import Mathlib.Data.Prod.Lex
import Mathlib.Data.String.Basic
import Mathlib.Data.Finset.Max
import VizorWallet.Library.Pointwise
import VizorWallet.Migration.Anchor
import VizorWallet.Migration.Retention

/-!
# Checkpoints kept for prepared notes

Before a batch of blocks is scanned, the checkpoints that represent the boundaries in it are
retained for every run. After the scan, what stays retained for a prepared note are the
representatives of the newest boundary below the anchor height and of the first candidate.

## Main definitions

* `retainMigrationAnchorCheckpointsBeforeScan`,
  `retainPreparedNoteAnchorCheckpointsAfterScan` — the two passes.

## Main results

* `maintain_spec` — what the end of a pass retains, references and releases.
* `mem_checkpointRepresentativesForScan` — the representatives of the boundaries of a batch.
-/

namespace VizorWallet.Migration

open Store (WalletNetwork MigrationTimingPolicy saturatingAdd)

/-! ## Checkpoints of boundaries -/

/-- The newest checkpoint of a note at or before a boundary. -/
def representativeOrchardCheckpoint (checkpointHeights : Finset ℕ)
    (logicalBoundaryHeight noteMinedHeight : ℕ) : Option ℕ :=
  let heights := checkpointHeights.filter fun height =>
    noteMinedHeight ≤ height ∧ height ≤ logicalBoundaryHeight
  if h : heights.Nonempty then some (heights.max' h) else none

section Policy

variable (network : WalletNetwork) (timingPolicy : MigrationTimingPolicy)

def migrationAnchorRetentionBoundary (anchorHeight noteMinedHeight : ℕ) : Option ℕ :=
  (zip318AnchorBoundaryAtOrBeforeWithPolicy network timingPolicy anchorHeight).filter
    (noteMinedHeight ≤ ·)

def migrationAnchorCheckpointsToRetain (anchorHeight noteMinedHeight nu63ActivationHeight : ℕ)
    (checkpointHeights : Finset ℕ) : Finset ℕ :=
  match migrationAnchorRetentionBoundary network timingPolicy anchorHeight noteMinedHeight with
  | none => ∅
  | some latestBoundary =>
    let firstEligibleBoundary := (zip318AnchorCandidateBoundariesWithPolicy network timingPolicy
      anchorHeight noteMinedHeight nu63ActivationHeight).head?
    ((latestBoundary :: firstEligibleBoundary.toList).filterMap
      (representativeOrchardCheckpoint checkpointHeights · noteMinedHeight)).toFinset

end Policy

/-- The boundaries from the first on, below the end of a batch. -/
def boundariesFrom (firstBoundary batchEnd modulus : ℕ) : List ℕ :=
  List.range' firstBoundary ((batchEnd - firstBoundary + modulus - 1) / modulus) modulus

def checkpointRepresentativesForScan (checkpointHeights : Finset ℕ)
    (activationHeight frontierHeight batchEnd boundaryModulus : ℕ) : Finset ℕ :=
  if boundaryModulus = 0 ∨ batchEnd ≤ frontierHeight then ∅
  else
    let firstEligibleHeight := max frontierHeight (saturatingAdd activationHeight 1)
    let remainder := firstEligibleHeight % boundaryModulus
    match if remainder = 0 then some firstEligibleHeight
      else checkedU32 (firstEligibleHeight + (boundaryModulus - remainder)) with
    | none => ∅
    | some firstBoundary =>
      ((boundariesFrom firstBoundary batchEnd boundaryModulus).filterMap
        (representativeOrchardCheckpoint checkpointHeights · 0)).toFinset

/-! ## The passes -/

/-- The checkpoints of the tree, those that pruning leaves alone, and the table of references. -/
structure CheckpointStore where
  checkpoints : Finset ℕ
  retained : Finset ℕ
  table : List RetainedAnchor

structure PreparedOrchardNoteRef where
  txidHex : String
  outputIndex : ℕ
  valueZatoshi : ℕ

structure PreparedAnchorRetentionCandidate where
  runId : String
  accountUuid : String
  note : PreparedOrchardNoteRef
  timingPolicy : MigrationTimingPolicy

/-- An unspent note of the wallet at an anchor height. -/
structure OrchardReceivedNote where
  txid : String
  outputIndex : ℕ
  isV2 : Bool
  value : ℕ
  minedHeight : Option ℕ

def AnchorReferences.ofFinset (references : Finset (String × ℕ)) : AnchorReferences where
  toList := ((references.map toLex.toEmbedding).sort (· ≤ ·)).map ofLex
  sorted := by
    rw [List.pairwise_map]
    refine (references.map toLex.toEmbedding).sortedLT_sort.pairwise.imp fun h => ?_
    exact Prod.Lex.toLex_lt_toLex.1 h

variable (anchors : DurableAnchors) (network : WalletNetwork)

/-- The end of a pass: what is wanted is staged and retained, and what is released is reported. -/
def maintain (desiredReferences : Finset (String × ℕ)) (store : CheckpointStore) :
    Except String CheckpointStore := do
  let desired := AnchorReferences.ofFinset desiredReferences
  let (table, released) ← stageMigrationAnchorRetentionReferences anchors store.table network
    desired store.retained
  return { store with
    retained := (store.retained ∪ desired.heights) \ released.toFinset
    table := finishMigrationAnchorRetentionReleases table network released }

/-- The first policy of each run. -/
def runPolicies : List PreparedAnchorRetentionCandidate → List (String × MigrationTimingPolicy)
  | [] => []
  | candidate :: rest =>
    (candidate.runId, candidate.timingPolicy) ::
      (runPolicies rest).filter (·.1 ≠ candidate.runId)

def retainMigrationAnchorCheckpointsBeforeScan
    (candidates : List PreparedAnchorRetentionCandidate) (frontierHeight batchEnd : ℕ)
    (incomingCheckpointHeights : Finset ℕ) (store : CheckpointStore) :
    Except String CheckpointStore := do
  if candidates.isEmpty then return store
  let checkpointHeights := insert frontierHeight store.checkpoints ∪ incomingCheckpointHeights
  let activationHeight ← orError (anchors.activationHeight network)
    "NU6.3 activation height unavailable"
  let projected := (runPolicies candidates).map fun (runId, timingPolicy) =>
    (checkpointRepresentativesForScan checkpointHeights activationHeight frontierHeight batchEnd
      (anchorBucketModulus network timingPolicy)).image (runId, ·)
  maintain anchors network
    (projected.foldl (· ∪ ·) (migrationAnchorRetentionReferences store.table network)) store

/-- The references of a prepared note, when the wallet has it. -/
def candidateReferences (anchorHeight nu63ActivationHeight : ℕ) (checkpointHeights : Finset ℕ)
    (availableNotes : List OrchardReceivedNote) (candidate : PreparedAnchorRetentionCandidate) :
    Except String (Finset (String × ℕ)) :=
  match availableNotes.find? fun selected =>
      selected.txid.toLower = candidate.note.txidHex.toLower ∧
        selected.outputIndex = candidate.note.outputIndex with
  | none => .ok ∅
  | some selected => do
    ensure selected.isV2 "Prepared note revalidated as non-V2 Orchard"
    ensure (selected.value = candidate.note.valueZatoshi)
      "Prepared note value changed during anchor retention"
    let minedHeight ← orError selected.minedHeight
      "Prepared migration note mined height unavailable"
    return (migrationAnchorCheckpointsToRetain network candidate.timingPolicy anchorHeight
      minedHeight nu63ActivationHeight checkpointHeights).image (candidate.runId, ·)

/-- `availableNotes` gives the notes of an account at the anchor height. -/
def retainPreparedNoteAnchorCheckpointsAfterScan
    (candidates : List PreparedAnchorRetentionCandidate) (anchorHeight : Option ℕ)
    (availableNotes : String → Except String (List OrchardReceivedNote))
    (store : CheckpointStore) : Except String CheckpointStore := do
  if candidates.isEmpty then maintain anchors network ∅ store
  else
    match anchorHeight with
    | none => return store
    | some anchorHeight =>
      let nu63ActivationHeight ← orError (anchors.activationHeight network)
        "NU6.3 activation height unavailable"
      let references ← candidates.mapM fun candidate => do
        candidateReferences network anchorHeight nu63ActivationHeight store.checkpoints
          (← availableNotes candidate.accountUuid) candidate
      maintain anchors network (references.foldl (· ∪ ·) ∅) store

/-! ## Representatives -/

/-- The newest of some heights in a range. -/
structure IsNewest (heights : Finset ℕ) (mined boundary height : ℕ) : Prop where
  mem : height ∈ heights
  mined_le : mined ≤ height
  le_boundary : height ≤ boundary
  newest : ∀ other ∈ heights, mined ≤ other → other ≤ boundary → other ≤ height

section Representatives

variable {heights : Finset ℕ} {mined boundary height : ℕ}

theorem representative_eq_some :
    representativeOrchardCheckpoint heights boundary mined = some height ↔
      IsNewest heights mined boundary height := by
  unfold representativeOrchardCheckpoint
  dsimp only
  constructor
  · intro h
    split_ifs at h with hnonempty
    obtain rfl := Option.some.inj h
    obtain ⟨hmem, hmined, hboundary⟩ := Finset.mem_filter.1 (Finset.max'_mem _ hnonempty)
    refine ⟨hmem, hmined, hboundary, fun other hother hmined hboundary => ?_⟩
    exact Finset.le_max' _ _ (Finset.mem_filter.2 ⟨hother, hmined, hboundary⟩)
  · intro h
    have hmem : height ∈ heights.filter fun height => mined ≤ height ∧ height ≤ boundary :=
      Finset.mem_filter.2 ⟨h.mem, h.mined_le, h.le_boundary⟩
    rw [dif_pos ⟨height, hmem⟩]
    apply congrArg some
    apply le_antisymm
    · apply Finset.max'_le
      intro other hother
      obtain ⟨hother, hmined, hboundary⟩ := Finset.mem_filter.1 hother
      exact h.newest other hother hmined hboundary
    · exact Finset.le_max' _ _ hmem

/-- More checkpoints do not matter when the newest of them is there already. -/
theorem IsNewest.of_subset {fewer : Finset ℕ} (h : IsNewest heights mined boundary height)
    (hsub : fewer ⊆ heights) (hmem : height ∈ fewer) : IsNewest fewer mined boundary height :=
  ⟨hmem, h.mined_le, h.le_boundary, fun other hother => h.newest other (hsub hother)⟩

theorem mem_boundariesFrom {firstBoundary batchEnd modulus : ℕ} (hpos : 0 < modulus)
    (hfirst : firstBoundary % modulus = 0) (hle : firstBoundary ≤ boundary)
    (hlt : boundary < batchEnd) (hboundary : boundary % modulus = 0) :
    boundary ∈ boundariesFrom firstBoundary batchEnd modulus := by
  obtain ⟨steps, hsteps⟩ : ∃ steps, boundary = firstBoundary + modulus * steps := by
    obtain ⟨steps, hsteps⟩ := Nat.dvd_sub (Nat.dvd_of_mod_eq_zero hboundary)
      (Nat.dvd_of_mod_eq_zero hfirst)
    exact ⟨steps, by omega⟩
  rw [boundariesFrom, List.mem_range']
  refine ⟨steps, ?_, hsteps⟩
  rw [Nat.lt_div_iff_mul_lt hpos, Nat.mul_comm]
  omega

/-- The next boundary after a height between two of them. -/
theorem next_boundary_le {first modulus : ℕ} (hpos : 0 < modulus)
    (hboundary : boundary % modulus = 0) (hle : first ≤ boundary) (hrest : first % modulus ≠ 0) :
    (first + (modulus - first % modulus)) % modulus = 0 ∧
      first + (modulus - first % modulus) ≤ boundary := by
  have hdiv := Nat.div_add_mod first modulus
  have hlt := Nat.mod_lt first hpos
  have hnext : first + (modulus - first % modulus) = modulus * (first / modulus + 1) := by
    rw [Nat.mul_add]
    omega
  rw [hnext]
  refine ⟨Nat.mul_mod_right _ _, ?_⟩
  obtain ⟨count, rfl⟩ := Nat.dvd_of_mod_eq_zero hboundary
  apply Nat.mul_le_mul_left
  apply Nat.succ_le_of_lt
  rw [Nat.div_lt_iff_lt_mul hpos, Nat.mul_comm]
  apply lt_of_le_of_ne hle
  rintro rfl
  exact hrest hboundary

/-- The representative of each boundary of a batch is projected, from the frontier on. -/
theorem mem_checkpointRepresentativesForScan {activation frontier batchEnd modulus : ℕ}
    (hpos : 0 < modulus) (hbatch : batchEnd < 2 ^ 32) (hboundary : boundary % modulus = 0)
    (hfrontier : frontier ≤ boundary) (hactivation : activation < boundary)
    (hend : boundary < batchEnd) (hnewest : IsNewest heights 0 boundary height) :
    height ∈ checkpointRepresentativesForScan heights activation frontier batchEnd modulus := by
  have hsaturating : saturatingAdd activation 1 = activation + 1 := by
    unfold saturatingAdd
    omega
  have hle : max frontier (activation + 1) ≤ boundary := by omega
  unfold checkpointRepresentativesForScan
  rw [if_neg (by omega), hsaturating]
  dsimp only
  by_cases hrest : max frontier (activation + 1) % modulus = 0
  · rw [if_pos hrest, List.mem_toFinset, List.mem_filterMap]
    exact ⟨boundary, mem_boundariesFrom hpos hrest hle hend hboundary,
      representative_eq_some.2 hnewest⟩
  · obtain ⟨hfirst, hnext⟩ := next_boundary_le hpos hboundary hle hrest
    rw [if_neg hrest, checkedU32, if_pos (by omega), List.mem_toFinset, List.mem_filterMap]
    exact ⟨boundary, mem_boundariesFrom hpos hfirst hnext hend hboundary,
      representative_eq_some.2 hnewest⟩

end Representatives

/-! ## What a pass does -/

section Maintain

variable {anchors : DurableAnchors} {network : WalletNetwork}
  {desired : Finset (String × ℕ)} {store store' : CheckpointStore} {height : ℕ}

theorem mem_ofFinset {reference : String × ℕ} :
    reference ∈ (AnchorReferences.ofFinset desired).toList ↔ reference ∈ desired := by
  simp [AnchorReferences.ofFinset]

theorem mem_heights_ofFinset : height ∈ (AnchorReferences.ofFinset desired).heights ↔
    ∃ runId, (runId, height) ∈ desired := by
  simp only [AnchorReferences.mem_heights, mem_ofFinset]

/-- The store after a pass, which never fails. -/
def maintained (anchors : DurableAnchors) (network : WalletNetwork)
    (desired : Finset (String × ℕ)) (store : CheckpointStore) : CheckpointStore where
  checkpoints := store.checkpoints
  retained := (store.retained ∪ (AnchorReferences.ofFinset desired).heights) \
    (releases anchors store.table network (.ofFinset desired)).toFinset
  table := finishMigrationAnchorRetentionReleases
    (staged anchors store.table network (.ofFinset desired) store.retained) network
    (releases anchors store.table network (.ofFinset desired))

theorem maintain_eq :
    maintain anchors network desired store = .ok (maintained anchors network desired store) := by
  rw [maintain, stageMigrationAnchorRetentionReferences_eq]
  rfl

theorem mem_retained_maintained {runId : String} (h : (runId, height) ∈ desired) :
    height ∈ (maintained anchors network desired store).retained := by
  have hdesired := mem_heights_ofFinset.2 ⟨runId, h⟩
  refine Finset.mem_sdiff.2 ⟨Finset.mem_union_right _ hdesired, fun hreleased => ?_⟩
  exact (mem_releases.1 (List.mem_toFinset.1 hreleased)).2.1 hdesired

/-- What the wallet retains by itself is never released. -/
theorem mem_retained_of_durable (h : height ∈ store.retained)
    (hdurable : anchors.Durable network height) :
    height ∈ (maintained anchors network desired store).retained := by
  refine Finset.mem_sdiff.2 ⟨Finset.mem_union_left _ h, fun hreleased => ?_⟩
  exact (mem_releases.1 (List.mem_toFinset.1 hreleased)).2.2 hdurable

theorem references_finish {table : List RetainedAnchor} {released : List ℕ} :
    migrationAnchorRetentionReferences
        (finishMigrationAnchorRetentionReleases table network released) network =
      migrationAnchorRetentionReferences table network := by
  ext reference
  simp only [migrationAnchorRetentionReferences, List.mem_toFinset, List.mem_map, List.mem_filter,
    mem_finishMigrationAnchorRetentionReleases, decide_eq_true_eq]
  constructor
  · rintro ⟨row, ⟨⟨hrow, -⟩, hrun⟩, hreference⟩
    exact ⟨row, ⟨hrow, hrun⟩, hreference⟩
  · rintro ⟨row, ⟨hrow, hrun⟩, hreference⟩
    refine ⟨row, ⟨⟨hrow, fun height _ hkey => ?_⟩, hrun⟩, hreference⟩
    exact hrun.2 (congrArg (·.2.1) hkey)

/-- The next pass reads back what this one wanted. -/
theorem references_maintained (hruns : ∀ reference ∈ desired,
      reference.1 ≠ retentionReleaseSentinelRunId) :
    migrationAnchorRetentionReferences (maintained anchors network desired store).table network =
      desired := by
  rw [maintained, references_finish, migrationAnchorRetentionReferences_staged]
  · ext reference
    rw [List.mem_toFinset, mem_ofFinset]
  · intro reference hmem
    exact hruns reference (mem_ofFinset.1 hmem)

/-- What a run wants and the wallet does not retain by itself is owned. -/
theorem exists_owner_maintained {runId : String} (h : (runId, height) ∈ desired)
    (hdurable : ¬ anchors.Durable network height) :
    ∃ row, row ∈ owners network height (maintained anchors network desired store).table := by
  have hdesired := mem_heights_ofFinset.2 ⟨runId, h⟩
  have hlength := @exists_owner_staged anchors store.table network (.ofFinset desired)
    store.retained height hdurable (.inl hdesired)
  obtain ⟨row, hrow⟩ := List.exists_mem_of_length_pos (hlength ▸ Nat.one_pos)
  obtain ⟨hmem, hnetwork, hheight, howns⟩ := mem_owners.1 hrow
  refine ⟨row, mem_owners.2 ⟨?_, hnetwork, hheight, howns⟩⟩
  refine mem_finishMigrationAnchorRetentionReleases.2 ⟨hmem, fun released hreleased hkey => ?_⟩
  obtain rfl : height = released := hheight.symm.trans (congrArg (·.2.2) hkey)
  exact (mem_releases.1 hreleased).2.1 hdesired

theorem retained_of_mem_maintained
    (h : height ∈ (maintained anchors network desired store).retained) :
    height ∈ store.retained ∨ ∃ runId, (runId, height) ∈ desired := by
  rcases Finset.mem_union.1 (Finset.mem_sdiff.1 h).1 with hretained | hdesired
  · exact .inl hretained
  · exact .inr (mem_heights_ofFinset.1 hdesired)

/-- What only the sentinel run or a run that no longer wants it owned is released. -/
theorem not_mem_retained_maintained {row : RetainedAnchor}
    (hrow : row ∈ owners network height store.table) (hdesired : ∀ runId, (runId, height) ∉ desired)
    (hdurable : ¬ anchors.Durable network height) :
    height ∉ (maintained anchors network desired store).retained := by
  intro hretained
  apply (Finset.mem_sdiff.1 hretained).2
  refine List.mem_toFinset.2 (mem_releases.2 ⟨⟨row, hrow⟩, ?_, ?_⟩)
  · rw [mem_heights_ofFinset]
    rintro ⟨runId, hmem⟩
    exact hdesired runId hmem
  · exact hdurable

theorem mem_foldl_union {α : Type*} [DecidableEq α] {sets : List (Finset α)} {start : Finset α}
    {a : α} : a ∈ sets.foldl (· ∪ ·) start ↔ a ∈ start ∨ ∃ set ∈ sets, a ∈ set := by
  induction sets generalizing start with
  | nil => simp
  | cons set sets ih =>
    rw [List.foldl_cons, ih, Finset.mem_union, List.exists_mem_cons_iff, or_assoc]

end Maintain

section Passes

variable {anchors : DurableAnchors} {network : WalletNetwork}
  {candidates : List PreparedAnchorRetentionCandidate}
  {candidate : PreparedAnchorRetentionCandidate} {activation : ℕ} {store store' : CheckpointStore}

theorem mem_runPolicies (hcandidate : candidate ∈ candidates)
    (hsame : ∀ other ∈ candidates, other.runId = candidate.runId →
      other.timingPolicy = candidate.timingPolicy) :
    (candidate.runId, candidate.timingPolicy) ∈ runPolicies candidates := by
  induction candidates with
  | nil => cases hcandidate
  | cons first rest ih =>
    rw [runPolicies]
    by_cases hrun : first.runId = candidate.runId
    · rw [hrun, hsame first List.mem_cons_self hrun]
      exact List.mem_cons_self
    · have hrest : candidate ∈ rest := by
        rcases List.mem_cons.1 hcandidate with rfl | hrest
        · exact absurd rfl hrun
        · exact hrest
      apply List.mem_cons_of_mem
      refine List.mem_filter.2 ⟨ih hrest fun other hother => ?_, decide_eq_true (Ne.symm hrun)⟩
      exact hsame other (List.mem_cons_of_mem _ hother)

theorem exists_of_mem_runPolicies {policy : String × MigrationTimingPolicy}
    (h : policy ∈ runPolicies candidates) : ∃ other ∈ candidates, other.runId = policy.1 := by
  induction candidates with
  | nil => cases h
  | cons first rest ih =>
    rcases List.mem_cons.1 h with rfl | h
    · exact ⟨first, List.mem_cons_self, rfl⟩
    · obtain ⟨other, hother, hrun⟩ := ih (List.mem_filter.1 h).1
      exact ⟨other, List.mem_cons_of_mem _ hother, hrun⟩

/-- What a pass before a scan wants: all that is referenced, and representatives of the batch. -/
theorem before_spec {frontier batchEnd : ℕ} {incoming : Finset ℕ}
    (hactivation : anchors.activationHeight network = some activation)
    (hcandidate : candidate ∈ candidates)
    (hsame : ∀ other ∈ candidates, other.runId = candidate.runId →
      other.timingPolicy = candidate.timingPolicy)
    (h : retainMigrationAnchorCheckpointsBeforeScan anchors network candidates frontier batchEnd
      incoming store = .ok store') :
    ∃ desired, store' = maintained anchors network desired store ∧
      (∀ reference ∈ desired,
        reference ∈ migrationAnchorRetentionReferences store.table network ∨
          ∃ other ∈ candidates, other.runId = reference.1) ∧
      migrationAnchorRetentionReferences store.table network ⊆ desired ∧
      ∀ height ∈ checkpointRepresentativesForScan (insert frontier store.checkpoints ∪ incoming)
        activation frontier batchEnd (anchorBucketModulus network candidate.timingPolicy),
        (candidate.runId, height) ∈ desired := by
  have hnonempty : candidates.isEmpty = false := by
    cases candidates with
    | nil => cases hcandidate
    | cons => rfl
  simp only [retainMigrationAnchorCheckpointsBeforeScan, hnonempty, hactivation, orError_some,
    ok_bind, maintain_eq] at h
  obtain rfl := Except.ok.inj h
  refine ⟨_, rfl, ?_, ?_, ?_⟩
  · intro reference hreference
    rcases mem_foldl_union.1 hreference with hold | ⟨set, hset, hmem⟩
    · exact .inl hold
    · obtain ⟨policy, hpolicy, rfl⟩ := List.mem_map.1 hset
      obtain ⟨height, -, rfl⟩ := Finset.mem_image.1 hmem
      exact .inr (exists_of_mem_runPolicies hpolicy)
  · intro reference hreference
    exact mem_foldl_union.2 (.inl hreference)
  · intro height hheight
    have hpolicy := mem_runPolicies hcandidate hsame
    refine mem_foldl_union.2 (.inr ⟨_, List.mem_map.2 ⟨_, hpolicy, rfl⟩, ?_⟩)
    exact Finset.mem_image_of_mem _ hheight

theorem candidateReferences_run {anchorHeight : ℕ} {heights : Finset ℕ}
    {notes : List OrchardReceivedNote} {references : Finset (String × ℕ)}
    (h : candidateReferences network anchorHeight activation heights notes candidate =
      .ok references) : ∀ reference ∈ references, reference.1 = candidate.runId := by
  unfold candidateReferences at h
  intro reference hreference
  split at h
  · obtain rfl := Except.ok.inj h
    cases hreference
  · simp only [bind_eq_ok, pure_eq_ok] at h
    obtain ⟨-, -, -, -, mined, -, rfl⟩ := h
    obtain ⟨height, -, rfl⟩ := Finset.mem_image.1 hreference
    rfl

/-- What a pass after a scan wants: the references of each of its notes. -/
theorem after_spec {anchorHeight : ℕ}
    {availableNotes : String → Except String (List OrchardReceivedNote)}
    (hactivation : anchors.activationHeight network = some activation)
    (hcandidate : candidate ∈ candidates)
    (h : retainPreparedNoteAnchorCheckpointsAfterScan anchors network candidates
      (some anchorHeight) availableNotes store = .ok store') :
    ∃ desired, store' = maintained anchors network desired store ∧
      (∀ reference ∈ desired, ∃ other ∈ candidates, other.runId = reference.1) ∧
      ∃ notes references, availableNotes candidate.accountUuid = .ok notes ∧
        candidateReferences network anchorHeight activation store.checkpoints notes candidate =
          .ok references ∧ references ⊆ desired := by
  have hnonempty : candidates.isEmpty = false := by
    cases candidates with
    | nil => cases hcandidate
    | cons => rfl
  simp only [retainPreparedNoteAnchorCheckpointsAfterScan, hnonempty, hactivation, orError_some,
    ok_bind, maintain_eq] at h
  obtain ⟨sets, hsets, hstore⟩ := bind_eq_ok.1 h
  obtain rfl := Except.ok.inj hstore
  have hforall := mapM_eq_ok.1 hsets
  refine ⟨_, rfl, ?_, ?_⟩
  · intro reference hreference
    rcases mem_foldl_union.1 hreference with hnone | ⟨set, hset, hmem⟩
    · cases hnone
    · obtain ⟨other, hother, hreferences⟩ := exists_mem_left hforall hset
      obtain ⟨notes, -, hreferences⟩ := bind_eq_ok.1 hreferences
      exact ⟨other, hother, (candidateReferences_run hreferences reference hmem).symm⟩
  · obtain ⟨references, hmem, hreferences⟩ := exists_mem_right hforall hcandidate
    obtain ⟨notes, hnotes, hreferences⟩ := bind_eq_ok.1 hreferences
    refine ⟨notes, references, hnotes, hreferences, fun reference hreference => ?_⟩
    exact mem_foldl_union.2 (.inr ⟨references, hmem, hreference⟩)

end Passes

end VizorWallet.Migration
