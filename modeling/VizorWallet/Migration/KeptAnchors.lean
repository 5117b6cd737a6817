import VizorWallet.Library.Transition
import VizorWallet.Migration.Maintenance
import VizorWallet.Migration.Retry

/-!
# Anchors that stay in the store

Batches of blocks are scanned one after the other. Each adds checkpoints, drops some that are not
retained, and raises the anchor height. As long as no boundary of a prepared note falls between the
anchor height and the frontier of the next batch, or it has a checkpoint that the wallet retains by
itself, the newest checkpoint of its first candidate is still there after every pass.

## Main definitions

* `scan` — one batch, between its two passes.
* `Sheltered` — no boundary with a checkpoint of its own is scanned and not yet anchored, other than
  a durable one.
* `KeepsFirst` — the newest checkpoint of the first candidate is in the store.

## Main results

* `first_candidate_kept` — in every run of sheltered batches, it is.
* `first_candidate_dropped` — a run in which it is not.
-/

namespace VizorWallet.Migration

open Store (WalletNetwork MigrationTimingPolicy saturatingAdd)

/-! ## Batches -/

/-- The wallet between two batches: the next block to scan, the anchor height, and the checkpoints
that were ever created. -/
structure ScannedWallet where
  scanned : ℕ
  anchorHeight : ℕ
  created : Finset ℕ
  store : CheckpointStore

/-- A batch up to the block before its end, with the checkpoints that it creates and those that
pruning takes if it may, and what the two passes read. -/
structure ScanBatch where
  batchEnd : ℕ
  incoming : Finset ℕ
  pruned : Finset ℕ
  anchorHeight : ℕ
  candidatesBefore : List PreparedAnchorRetentionCandidate
  candidatesAfter : List PreparedAnchorRetentionCandidate
  availableNotes : String → Except String (List OrchardReceivedNote)

abbrev ScannedWallet.frontier (wallet : ScannedWallet) : ℕ := wallet.scanned - 1

/-- The checkpoints after a batch if nothing is ever pruned. -/
def ScannedWallet.createdAfter (wallet : ScannedWallet) (batch : ScanBatch) : Finset ℕ :=
  insert wallet.frontier (wallet.created ∪ batch.incoming)

/-- The tree after a batch: its start and its blocks become checkpoints, and pruning leaves those
that are retained. -/
def ScanBatch.update (batch : ScanBatch) (frontier : ℕ) (store : CheckpointStore) :
    CheckpointStore :=
  { store with
    checkpoints := (insert frontier (store.checkpoints ∪ batch.incoming)).filter fun height =>
      height ∈ store.retained ∨ height ∉ batch.pruned }

variable (anchors : DurableAnchors) (network : WalletNetwork)

def scan (wallet : ScannedWallet) (batch : ScanBatch) : Except String ScannedWallet := do
  let retained ← retainMigrationAnchorCheckpointsBeforeScan anchors network batch.candidatesBefore
    wallet.frontier batch.batchEnd batch.incoming wallet.store
  let store ← retainPreparedNoteAnchorCheckpointsAfterScan anchors network batch.candidatesAfter
    (some batch.anchorHeight) batch.availableNotes (batch.update wallet.frontier retained)
  return ⟨batch.batchEnd, batch.anchorHeight, wallet.createdAfter batch, store⟩

/-- Runs of batches from a wallet. -/
def scanning (start : ScannedWallet) : Transition ScannedWallet ScanBatch where
  init := start
  step wallet batch := (scan anchors network wallet batch).toOption

/-! ## Prepared notes -/

/-- A note that a run has prepared, with the block in which it is mined. -/
structure PreparedNote where
  candidate : PreparedAnchorRetentionCandidate
  minedHeight : ℕ
  named : candidate.runId ≠ retentionReleaseSentinelRunId

section Note

variable (note : PreparedNote) (activation : ℕ)

def PreparedNote.candidateBoundaries (anchorHeight : ℕ) : List ℕ :=
  zip318AnchorCandidateBoundariesWithPolicy network note.candidate.timingPolicy anchorHeight
    note.minedHeight activation

def PreparedNote.newestBoundary (anchorHeight : ℕ) : ℕ :=
  Migration.newestBoundary network note.candidate.timingPolicy anchorHeight

/-- A boundary that may become a candidate of the note. -/
structure PreparedNote.MayAnchor (boundary : ℕ) : Prop where
  dvd : anchorBucketModulus network note.candidate.timingPolicy ∣ boundary
  mined_le : note.minedHeight ≤ boundary
  active : activation < boundary

/-- The wallet before the block of the note is scanned. -/
structure ScannedWallet.Before (wallet : ScannedWallet) : Prop where
  created_lt : ∀ height ∈ wallet.created, height < wallet.scanned
  stored : wallet.store.checkpoints ⊆ wallet.created
  anchor_lt : wallet.anchorHeight < wallet.scanned
  bounded : wallet.scanned < 2 ^ 32
  scanned_le : wallet.scanned ≤ note.minedHeight

/-- What is known of a batch: it continues the scan, the anchor height grows, both passes have the
note as a candidate, and the wallet has the note once it is mined at the anchor height. -/
structure ScanBatch.Genuine (wallet : ScannedWallet) (batch : ScanBatch) : Prop where
  later : wallet.scanned < batch.batchEnd
  bounded : batch.batchEnd < 2 ^ 32
  incoming : ∀ height ∈ batch.incoming, wallet.scanned ≤ height ∧ height < batch.batchEnd
  anchor_le : wallet.anchorHeight ≤ batch.anchorHeight
  anchor_lt : batch.anchorHeight < batch.batchEnd
  before : note.candidate ∈ batch.candidatesBefore
  after : note.candidate ∈ batch.candidatesAfter
  named : ∀ other, other ∈ batch.candidatesBefore ∨ other ∈ batch.candidatesAfter →
    other.runId ≠ retentionReleaseSentinelRunId
  policy : ∀ other ∈ batch.candidatesBefore, other.runId = note.candidate.runId →
    other.timingPolicy = note.candidate.timingPolicy
  available : note.minedHeight ≤ batch.anchorHeight →
    ∀ notes, batch.availableNotes note.candidate.accountUuid = .ok notes →
    ∃ selected, notes.find? (fun selected =>
        selected.txid.toLower = note.candidate.note.txidHex.toLower ∧
          selected.outputIndex = note.candidate.note.outputIndex) = some selected ∧
      selected.minedHeight = some note.minedHeight

/-- Of the boundaries that are scanned and above the anchor height, none has a checkpoint of its
own: they have a durable one, or share that of the newest boundary that is anchored. -/
def Sheltered (created : Finset ℕ) (anchorHeight scanned : ℕ) : Prop :=
  ∀ boundary, note.MayAnchor network activation boundary → anchorHeight < boundary →
    boundary + 1 < scanned → ∀ height, IsNewest created note.minedHeight boundary height →
      anchors.Durable network height ∨
        height ≤ note.newestBoundary network anchorHeight ∧
          activation < note.newestBoundary network anchorHeight

/-- The newest checkpoint of the first candidate, if one was ever created, is in the store. -/
def ScannedWallet.KeepsFirst (wallet : ScannedWallet) : Prop :=
  ∀ first, (note.candidateBoundaries network activation wallet.anchorHeight).head? = some first →
    ∀ height, IsNewest wallet.created note.minedHeight first height →
      height ∈ wallet.store.checkpoints

/-- The boundaries whose checkpoints the pass after a scan retains. -/
structure PreparedNote.Watches (anchorHeight boundary : ℕ) : Prop
    extends note.MayAnchor network activation boundary where
  watched : boundary = note.newestBoundary network anchorHeight ∨
    (note.candidateBoundaries network activation anchorHeight).head? = some boundary

/-- The newest checkpoint of a boundary is in the store, and referenced for the run. -/
def ScannedWallet.Protects (wallet : ScannedWallet) (boundary : ℕ) : Prop :=
  ∀ height, IsNewest wallet.created note.minedHeight boundary height →
    height ∈ wallet.store.checkpoints ∧ (note.candidate.runId, height) ∈
      migrationAnchorRetentionReferences wallet.store.table network

/-- A durable checkpoint that is the newest of a scanned boundary stays. -/
def ScannedWallet.KeepsDurable (wallet : ScannedWallet) : Prop :=
  ∀ boundary, note.MayAnchor network activation boundary → boundary + 1 < wallet.scanned →
    ∀ height, IsNewest wallet.created note.minedHeight boundary height →
      anchors.Durable network height →
      height ∈ wallet.store.checkpoints ∧ height ∈ wallet.store.retained

/-- What every sheltered batch keeps. -/
structure ScannedWallet.Kept (wallet : ScannedWallet) : Prop where
  created_lt : ∀ height ∈ wallet.created, height < wallet.scanned
  stored : wallet.store.checkpoints ⊆ wallet.created
  anchor_lt : wallet.anchorHeight < wallet.scanned
  bounded : wallet.scanned < 2 ^ 32
  durable : wallet.KeepsDurable anchors network note activation
  protects : ∀ boundary, note.Watches network activation wallet.anchorHeight boundary →
    wallet.Protects network note boundary
  sheltered : Sheltered anchors network note activation wallet.created wallet.anchorHeight
    wallet.scanned

end Note

/-! ## The watched boundaries -/

section Boundaries

variable {network : WalletNetwork} {note : PreparedNote} {activation anchorHeight boundary : ℕ}

/-- The first candidate has the youngest age that is allowed. -/
theorem head_candidates (h : (note.candidateBoundaries network activation anchorHeight).head? =
    some boundary) :
    boundary + anchorBucketMinAge network note.candidate.timingPolicy *
        anchorBucketModulus network note.candidate.timingPolicy =
      note.newestBoundary network anchorHeight ∧
    candidateLowerBound note.minedHeight activation ≤ boundary := by
  have hmin := anchorBucketMinAge_le network note.candidate.timingPolicy
  have hcount : zip318AnchorAgeCap + 1 - anchorBucketMinAge network note.candidate.timingPolicy =
      4 - anchorBucketMinAge network note.candidate.timingPolicy + 1 := by
    unfold zip318AnchorAgeCap
    omega
  rw [PreparedNote.candidateBoundaries, candidateBoundaries_eq, anchorAges, hcount,
    List.range'_succ, anchorCandidates] at h
  split at h
  · cases h
  · rename_i distance hdistance
    obtain rfl : _ = distance := by
      unfold checkedU32 at hdistance
      split_ifs at hdistance
      exact Option.some.inj hdistance
    split at h
    · cases h
    · rename_i first hfirst
      obtain ⟨hle, rfl⟩ := checkedSub_eq_some.1 hfirst
      split at h
      · cases h
      · rename_i hlower
        obtain rfl := Option.some.inj h
        refine ⟨?_, Nat.le_of_not_lt hlower⟩
        unfold PreparedNote.newestBoundary
        omega

theorem PreparedNote.Watches.boundary_le
    (h : note.Watches network activation anchorHeight boundary) :
    boundary ≤ note.newestBoundary network anchorHeight := by
  rcases h.watched with h | h
  · exact h.le
  · have := (head_candidates h).1
    omega

/-- A boundary that is watched later and is not above the anchor height is watched now. -/
theorem PreparedNote.Watches.earlier {later : ℕ} (hle : anchorHeight ≤ later)
    (h : note.Watches network activation later boundary) (hboundary : boundary ≤ anchorHeight) :
    note.Watches network activation anchorHeight boundary := by
  by_cases hsame : note.newestBoundary network later = note.newestBoundary network anchorHeight
  · refine ⟨h.toMayAnchor, ?_⟩
    rw [← hsame, PreparedNote.candidateBoundaries, ← candidateBoundaries_congr hsame]
    exact h.watched
  · refine ⟨h.toMayAnchor, .inl ?_⟩
    -- A newer boundary is anchored, so the watched one is the last before it.
    have hpos := anchorBucketModulus_pos network note.candidate.timingPolicy
    have hnewer : anchorHeight < note.newestBoundary network later := by
      by_contra hnot
      apply hsame
      symm
      apply newestBoundary_eq (dvd_newestBoundary _ _ _) (Nat.le_of_not_lt hnot)
      exact lt_of_le_of_lt hle (lt_newestBoundary_add _ _ _)
    have hmin := anchorBucketMinAge_le network note.candidate.timingPolicy
    symm
    apply newestBoundary_eq h.dvd hboundary
    rcases h.watched with hnewest | hfirst
    · omega
    · have hage := (head_candidates hfirst).1
      obtain hzero | hone : anchorBucketMinAge network note.candidate.timingPolicy = 0 ∨
        anchorBucketMinAge network note.candidate.timingPolicy = 1 := by omega
      · rw [hzero] at hage
        omega
      · rw [hone] at hage
        omega

end Boundaries

/-! ## One batch -/

section Batch

variable {anchors : DurableAnchors} {network : WalletNetwork} {note : PreparedNote}
  {activation boundary height : ℕ} {wallet wallet' : ScannedWallet} {batch : ScanBatch}

/-- A checkpoint that a batch creates is its frontier or in its blocks. -/
theorem mem_createdAfter : height ∈ wallet.createdAfter batch ↔
    height = wallet.frontier ∨ height ∈ wallet.created ∨ height ∈ batch.incoming := by
  rw [ScannedWallet.createdAfter, Finset.mem_insert, Finset.mem_union]

/-- The newest checkpoint of a boundary in the batch is the representative that is projected. -/
theorem newest_from_frontier (hcreated : ∀ height ∈ wallet.created, height < wallet.scanned)
    (hstored : wallet.store.checkpoints ⊆ wallet.created) (hfrontier : wallet.frontier ≤ boundary)
    (hnewest : IsNewest (wallet.createdAfter batch) note.minedHeight boundary height) :
    IsNewest (insert wallet.frontier wallet.store.checkpoints ∪ batch.incoming) 0 boundary
      height := by
  have hfloor : wallet.frontier ≤ height := by
    rcases Nat.lt_or_ge wallet.frontier note.minedHeight with hmined | hmined
    · exact hmined.le.trans hnewest.mined_le
    · exact hnewest.newest _ (mem_createdAfter.2 (.inl rfl)) hmined hfrontier
  have hbelow : ∀ other ∈ wallet.created, other ≤ wallet.frontier := by
    intro other hother
    have := hcreated other hother
    unfold ScannedWallet.frontier
    omega
  constructor
  · rw [Finset.mem_union, Finset.mem_insert]
    rcases mem_createdAfter.1 hnewest.mem with heq | hold | hnew
    · exact .inl (.inl heq)
    · exact .inl (.inl (le_antisymm (hbelow height hold) hfloor))
    · exact .inr hnew
  · exact Nat.zero_le height
  · exact hnewest.le_boundary
  · intro other hother _ hle
    have hcreated : other ∈ wallet.createdAfter batch := by
      rw [Finset.mem_union, Finset.mem_insert] at hother
      rw [mem_createdAfter]
      rcases hother with (heq | hstored') | hnew
      · exact .inl heq
      · exact .inr (.inl (hstored hstored'))
      · exact .inr (.inr hnew)
    rcases Nat.lt_or_ge other note.minedHeight with hmined | hmined
    · exact hmined.le.trans hnewest.mined_le
    · exact hnewest.newest other hcreated hmined hle

/-- The newest checkpoint of a boundary below the batch was there before it. -/
theorem newest_below_frontier (hgenuine : batch.Genuine note wallet)
    (hbelow : boundary < wallet.frontier)
    (hnewest : IsNewest (wallet.createdAfter batch) note.minedHeight boundary height) :
    IsNewest wallet.created note.minedHeight boundary height := by
  apply hnewest.of_subset
  · intro other hother
    exact mem_createdAfter.2 (.inr (.inl hother))
  · have hle := hnewest.le_boundary
    rcases mem_createdAfter.1 hnewest.mem with heq | hold | hnew
    · omega
    · exact hold
    · have := (hgenuine.incoming height hnew).1
      unfold ScannedWallet.frontier at hbelow
      omega

/-- A boundary below the batch that is watched after it has a protected or a durable checkpoint
before it. -/
theorem protected_below_frontier (hkept : wallet.Kept anchors network note activation)
    (hgenuine : batch.Genuine note wallet)
    (hwatches : note.Watches network activation batch.anchorHeight boundary)
    (hbelow : boundary < wallet.frontier)
    (hnewest : IsNewest wallet.created note.minedHeight boundary height) :
    height ∈ wallet.store.checkpoints ∧
      ((note.candidate.runId, height) ∈
          migrationAnchorRetentionReferences wallet.store.table network ∨
        anchors.Durable network height ∧ height ∈ wallet.store.retained) := by
  rcases Nat.lt_or_ge wallet.anchorHeight boundary with habove | hanchored
  · have hscanned : boundary + 1 < wallet.scanned := by
      unfold ScannedWallet.frontier at hbelow
      omega
    rcases hkept.sheltered boundary hwatches.toMayAnchor habove hscanned height hnewest with
      hdurable | ⟨hle, hactive⟩
    · obtain ⟨hmem, hretained⟩ :=
        hkept.durable boundary hwatches.toMayAnchor hscanned height hnewest hdurable
      exact ⟨hmem, .inr ⟨hdurable, hretained⟩⟩
    -- It shares its checkpoint with the newest boundary that was anchored.
    · have hnewestLe : note.newestBoundary network wallet.anchorHeight ≤ wallet.anchorHeight :=
        newestBoundary_le _ _ _
      have hshared := hkept.protects (note.newestBoundary network wallet.anchorHeight)
        ⟨⟨dvd_newestBoundary _ _ _, hnewest.mined_le.trans hle, hactive⟩, .inl rfl⟩ height
        ⟨hnewest.mem, hnewest.mined_le, hle, fun other hother hmined hother' =>
          hnewest.newest other hother hmined (by omega)⟩
      exact hshared.imp_right .inl
  · have hprotected := hkept.protects boundary (hwatches.earlier hgenuine.anchor_le hanchored)
      height hnewest
    exact hprotected.imp_right .inl

section Projected

variable {desired : Finset (String × ℕ)}

theorem mem_update_of_retained (hmem : height ∈ insert wallet.frontier
      (wallet.store.checkpoints ∪ batch.incoming))
    (hretained : height ∈ (maintained anchors network desired wallet.store).retained) :
    height ∈ (batch.update wallet.frontier
      (maintained anchors network desired wallet.store)).checkpoints :=
  Finset.mem_filter.2 ⟨hmem, .inl hretained⟩

/-- The newest checkpoint of a boundary in the batch is retained when the batch is scanned. -/
theorem retained_from_frontier (hkept : wallet.Kept anchors network note activation)
    (hgenuine : batch.Genuine note wallet) (hmay : note.MayAnchor network activation boundary)
    (hfrontier : wallet.frontier ≤ boundary) (hend : boundary < batch.batchEnd)
    (hnewest : IsNewest (wallet.createdAfter batch) note.minedHeight boundary height)
    (hprojected : ∀ height ∈ checkpointRepresentativesForScan
      (insert wallet.frontier wallet.store.checkpoints ∪ batch.incoming) activation wallet.frontier
      batch.batchEnd (anchorBucketModulus network note.candidate.timingPolicy),
      (note.candidate.runId, height) ∈ desired) :
    height ∈ insert wallet.frontier (wallet.store.checkpoints ∪ batch.incoming) ∧
      height ∈ (maintained anchors network desired wallet.store).retained := by
  have hrepresentative :=
    newest_from_frontier hkept.created_lt hkept.stored hfrontier hnewest
  constructor
  · rw [← Finset.insert_union]
    exact hrepresentative.mem
  · apply mem_retained_maintained
    apply hprojected
    exact mem_checkpointRepresentativesForScan (anchorBucketModulus_pos _ _) hgenuine.bounded
      (Nat.mod_eq_zero_of_dvd hmay.dvd) hfrontier hmay.active hend hrepresentative

/-- The newest checkpoint of a boundary that is watched after a batch is retained for the batch. -/
theorem retained_before_scan (hkept : wallet.Kept anchors network note activation)
    (hgenuine : batch.Genuine note wallet)
    (hwatches : note.Watches network activation batch.anchorHeight boundary)
    (hnewest : IsNewest (wallet.createdAfter batch) note.minedHeight boundary height)
    (hold : migrationAnchorRetentionReferences wallet.store.table network ⊆ desired)
    (hprojected : ∀ height ∈ checkpointRepresentativesForScan
      (insert wallet.frontier wallet.store.checkpoints ∪ batch.incoming) activation wallet.frontier
      batch.batchEnd (anchorBucketModulus network note.candidate.timingPolicy),
      (note.candidate.runId, height) ∈ desired) :
    height ∈ insert wallet.frontier (wallet.store.checkpoints ∪ batch.incoming) ∧
      height ∈ (maintained anchors network desired wallet.store).retained := by
  rcases Nat.lt_or_ge boundary wallet.frontier with hbelow | hfrontier
  · have hbefore := newest_below_frontier hgenuine hbelow hnewest
    obtain ⟨hstored, hreferenced | ⟨hdurable, hretained⟩⟩ :=
      protected_below_frontier hkept hgenuine hwatches hbelow hbefore
    · exact ⟨Finset.mem_insert_of_mem (Finset.mem_union_left _ hstored),
        mem_retained_maintained (hold hreferenced)⟩
    · exact ⟨Finset.mem_insert_of_mem (Finset.mem_union_left _ hstored),
        mem_retained_of_durable hretained hdurable⟩
  · have hend : boundary < batch.batchEnd := by
      have := hwatches.boundary_le
      have := newestBoundary_le network note.candidate.timingPolicy batch.anchorHeight
      have := hgenuine.anchor_lt
      unfold PreparedNote.newestBoundary at *
      omega
    exact retained_from_frontier hkept hgenuine hwatches.toMayAnchor hfrontier hend hnewest
      hprojected

/-- A durable checkpoint of a scanned boundary is retained for the batch, and afterwards. -/
theorem durable_before_scan (hkept : wallet.Kept anchors network note activation)
    (hgenuine : batch.Genuine note wallet) (hmay : note.MayAnchor network activation boundary)
    (hscanned : boundary + 1 < batch.batchEnd)
    (hnewest : IsNewest (wallet.createdAfter batch) note.minedHeight boundary height)
    (hdurable : anchors.Durable network height)
    (hprojected : ∀ height ∈ checkpointRepresentativesForScan
      (insert wallet.frontier wallet.store.checkpoints ∪ batch.incoming) activation wallet.frontier
      batch.batchEnd (anchorBucketModulus network note.candidate.timingPolicy),
      (note.candidate.runId, height) ∈ desired) :
    height ∈ insert wallet.frontier (wallet.store.checkpoints ∪ batch.incoming) ∧
      height ∈ (maintained anchors network desired wallet.store).retained := by
  rcases Nat.lt_or_ge boundary wallet.frontier with hbelow | hfrontier
  · have hbefore := newest_below_frontier hgenuine hbelow hnewest
    have hbelow' : boundary + 1 < wallet.scanned := by
      unfold ScannedWallet.frontier at hbelow
      omega
    obtain ⟨hstored, hretained⟩ := hkept.durable boundary hmay hbelow' height hbefore hdurable
    exact ⟨Finset.mem_insert_of_mem (Finset.mem_union_left _ hstored),
      mem_retained_of_durable hretained hdurable⟩
  · exact retained_from_frontier hkept hgenuine hmay hfrontier (Nat.lt_of_succ_lt hscanned)
      hnewest hprojected

end Projected

/-- The pass after a scan wants the checkpoints of the boundaries that it watches. -/
theorem wanted_after_scan {heights : Finset ℕ} {notes : List OrchardReceivedNote}
    {references : Finset (String × ℕ)} (hgenuine : batch.Genuine note wallet)
    (hwatches : note.Watches network activation batch.anchorHeight boundary)
    (hnewest : IsNewest heights note.minedHeight boundary height)
    (hnotes : batch.availableNotes note.candidate.accountUuid = .ok notes)
    (hreferences : candidateReferences network batch.anchorHeight activation heights notes
      note.candidate = .ok references) : (note.candidate.runId, height) ∈ references := by
  have hle := hwatches.boundary_le
  have hanchor : note.newestBoundary network batch.anchorHeight ≤ batch.anchorHeight :=
    newestBoundary_le _ _ _
  have hmined := hwatches.mined_le
  have hactive := hwatches.active
  obtain ⟨selected, hselected, hminedHeight⟩ := hgenuine.available (by omega) notes hnotes
  rw [candidateReferences, hselected] at hreferences
  simp only [hminedHeight, orError_some, ok_bind, bind_eq_ok, pure_eq_ok] at hreferences
  obtain ⟨-, -, -, -, rfl⟩ := hreferences
  apply Finset.mem_image_of_mem
  have hlatest : migrationAnchorRetentionBoundary network note.candidate.timingPolicy
      batch.anchorHeight note.minedHeight =
      some (note.newestBoundary network batch.anchorHeight) := by
    unfold migrationAnchorRetentionBoundary zip318AnchorBoundaryAtOrBeforeWithPolicy
    change Option.filter _ (if 0 < note.newestBoundary network batch.anchorHeight then
      some (note.newestBoundary network batch.anchorHeight) else none) = _
    rw [if_pos (by omega), Option.filter_some, if_pos (decide_eq_true (by omega))]
  rw [migrationAnchorCheckpointsToRetain, hlatest, List.mem_toFinset, List.mem_filterMap]
  refine ⟨boundary, ?_, representative_eq_some.2 hnewest⟩
  rcases hwatches.watched with hwatched | hwatched
  · rw [hwatched]
    exact List.mem_cons_self
  · apply List.mem_cons_of_mem
    rw [PreparedNote.candidateBoundaries] at hwatched
    rw [hwatched]
    exact List.mem_singleton_self boundary

theorem ScannedWallet.Kept.step (hactivation : anchors.activationHeight network = some activation)
    (hkept : wallet.Kept anchors network note activation) (hgenuine : batch.Genuine note wallet)
    (hsheltered : Sheltered anchors network note activation (wallet.createdAfter batch)
      batch.anchorHeight batch.batchEnd) (h : scan anchors network wallet batch = .ok wallet') :
    wallet'.Kept anchors network note activation := by
  obtain ⟨before, hbefore, h⟩ := bind_eq_ok.1 h
  obtain ⟨after, hafter, h⟩ := bind_eq_ok.1 h
  obtain rfl := Except.ok.inj h
  obtain ⟨desired, rfl, -, hold, hprojected⟩ :=
    before_spec hactivation hgenuine.before hgenuine.policy hbefore
  obtain ⟨wanted, rfl, hnamed, notes, references, hnotes, hreferences, hwanted⟩ :=
    after_spec hactivation hgenuine.after hafter
  have hstored : (batch.update wallet.frontier
      (maintained anchors network desired wallet.store)).checkpoints ⊆
      wallet.createdAfter batch := by
    apply (Finset.filter_subset _ _).trans
    apply Finset.insert_subset_insert
    exact Finset.union_subset_union_left hkept.stored
  have htable := @references_maintained anchors network wanted
    (batch.update wallet.frontier (maintained anchors network desired wallet.store)) (by
      intro reference hreference
      obtain ⟨other, hother, hrun⟩ := hnamed reference hreference
      rw [← hrun]
      exact hgenuine.named other (.inr hother))
  constructor
  · intro height hheight
    have hlater := hgenuine.later
    rcases mem_createdAfter.1 hheight with rfl | hold | hnew
    · unfold ScannedWallet.frontier
      dsimp only
      omega
    · exact (hkept.created_lt height hold).trans hlater
    · exact (hgenuine.incoming height hnew).2
  · exact hstored
  · exact hgenuine.anchor_lt
  · exact hgenuine.bounded
  · intro boundary hmay hscanned height hnewest hdurable
    obtain ⟨hmem, hretained⟩ :=
      durable_before_scan hkept hgenuine hmay hscanned hnewest hdurable hprojected
    exact ⟨mem_update_of_retained hmem hretained, mem_retained_of_durable hretained hdurable⟩
  · intro boundary hwatches height hnewest
    obtain ⟨hmem, hretained⟩ :=
      retained_before_scan hkept hgenuine hwatches hnewest hold hprojected
    have hkeeps := mem_update_of_retained hmem hretained
    refine ⟨hkeeps, ?_⟩
    rw [htable]
    exact hwanted (wanted_after_scan hgenuine hwatches (hnewest.of_subset hstored hkeeps) hnotes
      hreferences)
  · exact hsheltered

end Batch

/-! ## Runs -/

section Runs

variable {anchors : DurableAnchors} {network : WalletNetwork} {note : PreparedNote}
  {activation : ℕ} {wallet start : ScannedWallet}

/-- A note is not below its block. -/
theorem kept_of_before (h : start.Before note) :
    start.Kept anchors network note activation where
  created_lt := h.created_lt
  stored := h.stored
  anchor_lt := h.anchor_lt
  bounded := h.bounded
  durable := by
    intro boundary hmay hscanned
    have hmined := hmay.mined_le
    have hbefore := h.scanned_le
    omega
  protects := by
    intro boundary hwatches
    have hle := hwatches.boundary_le
    have hanchor := newestBoundary_le network note.candidate.timingPolicy start.anchorHeight
    have hmined := hwatches.mined_le
    have hlt := h.anchor_lt
    have hscanned := h.scanned_le
    unfold PreparedNote.newestBoundary at hle
    omega
  sheltered := by
    intro boundary hmay _ hscanned
    have hmined := hmay.mined_le
    have hbefore := h.scanned_le
    omega

theorem keepsFirst_of_kept (h : wallet.Kept anchors network note activation) :
    wallet.KeepsFirst network note activation := by
  intro first hfirst height hnewest
  obtain ⟨hage, hlower⟩ := head_candidates hfirst
  have hanchor := newestBoundary_le network note.candidate.timingPolicy wallet.anchorHeight
  have hlt := h.anchor_lt
  have hbounded := h.bounded
  have hdvd : anchorBucketModulus network note.candidate.timingPolicy ∣ first := by
    rw [← Nat.dvd_add_left (Nat.dvd_mul_left _ _), hage]
    exact dvd_newestBoundary _ _ _
  unfold candidateLowerBound saturatingAdd at hlower
  unfold PreparedNote.newestBoundary at hage
  exact (h.protects first ⟨⟨hdvd, by omega, by omega⟩, .inr hfirst⟩ height hnewest).1

end Runs

/-! ## A note of one run -/

section Single

variable {anchors : DurableAnchors} {network : WalletNetwork} {activation : ℕ}
  {candidate : PreparedAnchorRetentionCandidate} {store : CheckpointStore}

theorem before_single {frontier batchEnd : ℕ} {incoming : Finset ℕ}
    (hactivation : anchors.activationHeight network = some activation) :
    retainMigrationAnchorCheckpointsBeforeScan anchors network [candidate] frontier batchEnd
      incoming store = .ok (maintained anchors network
        (migrationAnchorRetentionReferences store.table network ∪
          (checkpointRepresentativesForScan (insert frontier store.checkpoints ∪ incoming)
            activation frontier batchEnd
            (anchorBucketModulus network candidate.timingPolicy)).image (candidate.runId, ·))
        store) := by
  simp only [retainMigrationAnchorCheckpointsBeforeScan, List.isEmpty_cons, hactivation,
    orError_some, ok_bind, runPolicies, List.filter_nil, List.map_cons, List.map_nil,
    List.foldl_cons, List.foldl_nil, maintain_eq]
  rfl

theorem after_single {anchorHeight : ℕ} {notes : List OrchardReceivedNote}
    {availableNotes : String → Except String (List OrchardReceivedNote)}
    {references : Finset (String × ℕ)}
    (hactivation : anchors.activationHeight network = some activation)
    (hnotes : availableNotes candidate.accountUuid = .ok notes)
    (hreferences : candidateReferences network anchorHeight activation store.checkpoints notes
      candidate = .ok references) :
    retainPreparedNoteAnchorCheckpointsAfterScan anchors network [candidate] (some anchorHeight)
      availableNotes store = .ok (maintained anchors network references store) := by
  simp only [retainPreparedNoteAnchorCheckpointsAfterScan, List.isEmpty_cons, hactivation,
    orError_some, ok_bind, List.mapM_cons, List.mapM_nil, hnotes, hreferences, maintain_eq]
  simp [List.foldl_cons]

end Single

def sampleAnchors : DurableAnchors := ⟨fun _ => some 100, 144⟩

def sampleCandidate : PreparedAnchorRetentionCandidate :=
  ⟨"run", "account", ⟨"aa", 0, 10⟩, .standard90MinutesLatestAnchor⟩

/-- The block of the note is the last before a boundary. -/
def sampleNote : PreparedNote := ⟨sampleCandidate, 143, by decide⟩

def sampleWallet : ScannedWallet := ⟨143, 140, ∅, ⟨∅, ∅, []⟩⟩

def sampleBatch (batchEnd anchorHeight : ℕ) (incoming pruned : Finset ℕ) : ScanBatch where
  batchEnd := batchEnd
  incoming := incoming
  pruned := pruned
  anchorHeight := anchorHeight
  candidatesBefore := [sampleCandidate]
  candidatesAfter := [sampleCandidate]
  availableNotes _ := .ok [⟨"aa", 0, true, 10, some 143⟩]

theorem sampleWallet_before : sampleWallet.Before sampleNote where
  created_lt := nofun
  stored := Finset.Subset.refl _
  anchor_lt := by decide
  bounded := by decide
  scanned_le := by decide

theorem sampleBatch_genuine {wallet : ScannedWallet} {batchEnd anchorHeight : ℕ}
    {incoming pruned : Finset ℕ} (hlater : wallet.scanned < batchEnd) (hbounded : batchEnd < 2 ^ 32)
    (hincoming : ∀ height ∈ incoming, wallet.scanned ≤ height ∧ height < batchEnd)
    (hanchor : wallet.anchorHeight ≤ anchorHeight) (hlt : anchorHeight < batchEnd) :
    (sampleBatch batchEnd anchorHeight incoming pruned).Genuine sampleNote wallet where
  later := hlater
  bounded := hbounded
  incoming := hincoming
  anchor_le := hanchor
  anchor_lt := hlt
  before := List.mem_cons_self
  after := List.mem_cons_self
  named := by
    intro other hother
    rcases hother with hother | hother
    · rw [List.mem_singleton.1 hother]
      decide
    · rw [List.mem_singleton.1 hother]
      decide
  policy := by
    intro other hother _
    rw [List.mem_singleton.1 hother]
    rfl
  available := by
    intro _ notes hnotes
    obtain rfl := Except.ok.inj hnotes
    exact ⟨_, List.find?_cons_of_pos (by simp [sampleNote, sampleCandidate]), rfl⟩

/-- What the pass after a scan references of the note. -/
theorem sample_references {network : WalletNetwork} {anchorHeight activation : ℕ}
    {heights : Finset ℕ} : candidateReferences network anchorHeight activation heights
      [⟨"aa", 0, true, 10, some 143⟩] sampleCandidate =
      .ok ((migrationAnchorCheckpointsToRetain network .standard90MinutesLatestAnchor anchorHeight
        143 activation heights).image ("run", ·)) := by
  rw [candidateReferences, List.find?_cons_of_pos (by simp [sampleCandidate])]
  rfl

/-- The tree of a sample batch, before the pass after its scan. -/
def sampleScanned (wallet : ScannedWallet) (batch : ScanBatch) : CheckpointStore :=
  batch.update wallet.frontier (maintained sampleAnchors .main
    (migrationAnchorRetentionReferences wallet.store.table .main ∪
      (checkpointRepresentativesForScan (insert wallet.frontier wallet.store.checkpoints ∪
        batch.incoming) 100 wallet.frontier batch.batchEnd 144).image ("run", ·)) wallet.store)

/-- The wallet after a sample batch. -/
def sampleAfter (wallet : ScannedWallet) (batch : ScanBatch) : ScannedWallet where
  scanned := batch.batchEnd
  anchorHeight := batch.anchorHeight
  created := wallet.createdAfter batch
  store := maintained sampleAnchors .main ((migrationAnchorCheckpointsToRetain .main
    .standard90MinutesLatestAnchor batch.anchorHeight 143 100
    (sampleScanned wallet batch).checkpoints).image ("run", ·)) (sampleScanned wallet batch)

theorem scan_sample {wallet : ScannedWallet} {batchEnd anchorHeight : ℕ}
    {incoming pruned : Finset ℕ} : (scanning sampleAnchors .main sampleWallet).step wallet
      (sampleBatch batchEnd anchorHeight incoming pruned) =
      some (sampleAfter wallet (sampleBatch batchEnd anchorHeight incoming pruned)) := by
  have hactivation : sampleAnchors.activationHeight .main = some 100 := rfl
  have hscan : scan sampleAnchors .main wallet
      (sampleBatch batchEnd anchorHeight incoming pruned) =
      .ok (sampleAfter wallet (sampleBatch batchEnd anchorHeight incoming pruned)) := by
    refine bind_eq_ok.2 ⟨_, before_single hactivation, ?_⟩
    exact bind_eq_ok.2 ⟨_, after_single hactivation rfl sample_references, rfl⟩
  change (scan _ _ _ _).toOption = _
  rw [hscan]
  rfl

/-- A first batch ends after the boundary, and the anchor height is the block of the note. -/
def firstBatch : ScanBatch := sampleBatch 146 143 {143, 145} ∅

/-- A second batch prunes the checkpoint of the note. -/
def secondBatch : ScanBatch := sampleBatch 286 283 (Finset.Icc 146 285) {143}

theorem sample_not_durable : ¬ sampleAnchors.Durable .main 143 := by
  unfold DurableAnchors.Durable
  decide

/-- The checkpoint is retained for the first batch. -/
theorem firstBatch_owns :
    ∃ row, row ∈ owners .main 143 (sampleScanned sampleWallet firstBatch).table := by
  have hprojected : 143 ∈ checkpointRepresentativesForScan {142, 143, 145} 100 142 146 144 := by
    apply @mem_checkpointRepresentativesForScan _ 144
    · decide
    · decide
    · decide
    · decide
    · decide
    · decide
    · exact ⟨by decide, by decide, by decide, by decide⟩
  have hwanted : ("run", 143) ∈ migrationAnchorRetentionReferences [] .main ∪
      (checkpointRepresentativesForScan {142, 143, 145} 100 142 146 144).image ("run", ·) :=
    Finset.mem_union_right _ (Finset.mem_image_of_mem _ hprojected)
  exact exists_owner_maintained hwanted sample_not_durable

/-- The checkpoint is released after the first batch, and no longer referenced. -/
theorem firstBatch_releases : 143 ∉ (sampleAfter sampleWallet firstBatch).store.retained ∧
    migrationAnchorRetentionReferences (sampleAfter sampleWallet firstBatch).store.table .main =
      ∅ := by
  have hnone : migrationAnchorCheckpointsToRetain .main .standard90MinutesLatestAnchor 143 143 100
      (sampleScanned sampleWallet firstBatch).checkpoints = ∅ := rfl
  have hstore : (sampleAfter sampleWallet firstBatch).store =
      maintained sampleAnchors .main ∅ (sampleScanned sampleWallet firstBatch) := by
    change maintained _ _ ((migrationAnchorCheckpointsToRetain _ _ 143 143 100 _).image _) _ = _
    rw [hnone, Finset.image_empty]
  rw [hstore]
  obtain ⟨row, hrow⟩ := firstBatch_owns
  exact ⟨not_mem_retained_maintained hrow (fun _ => Finset.notMem_empty _) sample_not_durable,
    references_maintained fun _ hmem => absurd hmem (Finset.notMem_empty _)⟩

/-- No boundary is in the second batch, so the checkpoint is pruned. -/
theorem secondBatch_prunes : 143 ∉
    (sampleAfter (sampleAfter sampleWallet firstBatch) secondBatch).store.checkpoints := by
  obtain ⟨hreleased, hreferences⟩ := firstBatch_releases
  intro hmem
  obtain ⟨-, hretained | hpruned⟩ := Finset.mem_filter.1 hmem
  · rcases retained_of_mem_maintained hretained with hold | ⟨runId, hwanted⟩
    · exact hreleased hold
    · rw [hreferences, Finset.empty_union] at hwanted
      obtain ⟨height, hheight, -⟩ := Finset.mem_image.1 hwanted
      exact absurd hheight (Finset.notMem_empty height)
  · exact hpruned (Finset.mem_singleton_self 143)

/-- A run in which the newest checkpoint of the first candidate is gone. -/
theorem first_candidate_dropped : ∃ wallet,
    (scanning sampleAnchors .main sampleWallet).Reaches
      (fun wallet batch => batch.Genuine sampleNote wallet) wallet ∧
    ¬ wallet.KeepsFirst .main sampleNote 100 := by
  refine ⟨sampleAfter (sampleAfter sampleWallet firstBatch) secondBatch, ?_, fun hkeeps => ?_⟩
  · refine .step (.step .init ?_ scan_sample) ?_ scan_sample
    · apply sampleBatch_genuine
      all_goals decide
    · apply sampleBatch_genuine
      · decide
      · decide
      · intro height hheight
        obtain ⟨hlow, hhigh⟩ := Finset.mem_Icc.1 hheight
        exact ⟨hlow, Nat.lt_succ_of_le hhigh⟩
      · decide
      · decide
  · apply secondBatch_prunes
    apply hkeeps 144 (by decide)
    refine ⟨?_, by decide, by decide, ?_⟩
    · exact mem_createdAfter.2 (.inr (.inl (mem_createdAfter.2 (.inr (.inr (by decide))))))
    · intro other hother _ hle
      rcases mem_createdAfter.1 hother with rfl | hold | hnew
      · exact absurd hle (by decide)
      · rcases mem_createdAfter.1 hold with rfl | hnone | hfirst
        · decide
        · exact absurd hnone (Finset.notMem_empty other)
        · obtain rfl | rfl : other = 143 ∨ other = 145 := by
            simpa [firstBatch, sampleBatch] using hfirst
          · exact le_rfl
          · exact absurd hle (by decide)
      · have hlow := (Finset.mem_Icc.1 hnew).1
        omega

/-! ## The result -/

/-- In every run of sheltered batches, the newest checkpoint of the first candidate is in the store
after every pass. -/
theorem first_candidate_kept {anchors : DurableAnchors} {network : WalletNetwork}
    {note : PreparedNote} {activation : ℕ} {wallet start : ScannedWallet}
    (hactivation : anchors.activationHeight network = some activation) (hstart : start.Before note)
    (h : (scanning anchors network start).Reaches (fun wallet batch =>
      batch.Genuine note wallet ∧ Sheltered anchors network note activation
        (wallet.createdAfter batch) batch.anchorHeight batch.batchEnd) wallet) :
    wallet.KeepsFirst network note activation := by
  apply @keepsFirst_of_kept anchors
  refine h.invariant (kept_of_before hstart) ?_
  rintro wallet batch wallet' hkept ⟨hgenuine, hsheltered⟩ hstep
  apply hkept.step hactivation hgenuine hsheltered
  cases hscan : scan anchors network wallet batch with
  | error error => simp [scanning, hscan, Except.toOption] at hstep
  | ok scanned => simpa [scanning, hscan, Except.toOption] using hstep

/-- A first batch with a durable checkpoint at the boundary, which prunes the one of the note. -/
def durableBatch : ScanBatch := sampleBatch 146 143 {143, 144, 145} {142, 143}

/-- A second batch that would prune the durable checkpoint too. -/
def laterBatch : ScanBatch := sampleBatch 286 283 (Finset.Icc 146 285) {143, 144, 145}

theorem durableBatch_prunes : 143 ∉ (sampleScanned sampleWallet durableBatch).checkpoints := by
  intro hmem
  obtain ⟨-, hretained | hpruned⟩ := Finset.mem_filter.1 hmem
  · have hprojected : 143 ∉ checkpointRepresentativesForScan {142, 143, 144, 145} 100 142 146 144 :=
      by decide
    rcases retained_of_mem_maintained hretained with hold | ⟨runId, hwanted⟩
    · exact absurd hold (Finset.notMem_empty 143)
    · rcases Finset.mem_union.1 hwanted with hold | hnew
      · exact absurd hold (Finset.notMem_empty _)
      · obtain ⟨height, hheight, heq⟩ := Finset.mem_image.1 hnew
        obtain rfl : height = 143 := congrArg Prod.snd heq
        exact hprojected hheight
  · exact hpruned (by decide)

/-- Both batches prune checkpoints, and the durable one of the first candidate stays. -/
theorem first_candidate_kept_sample : ∃ wallet,
    (scanning sampleAnchors .main sampleWallet).Reaches (fun wallet batch =>
      batch.Genuine sampleNote wallet ∧ Sheltered sampleAnchors .main sampleNote 100
        (wallet.createdAfter batch) batch.anchorHeight batch.batchEnd) wallet ∧
    (sampleNote.candidateBoundaries .main 100 wallet.anchorHeight).head? = some 144 ∧
    143 ∈ wallet.created ∧ 143 ∉ wallet.store.checkpoints ∧
    wallet.KeepsFirst .main sampleNote 100 := by
  have hrun : (scanning sampleAnchors .main sampleWallet).Reaches (fun wallet batch =>
      batch.Genuine sampleNote wallet ∧ Sheltered sampleAnchors .main sampleNote 100
        (wallet.createdAfter batch) batch.anchorHeight batch.batchEnd)
      (sampleAfter (sampleAfter sampleWallet durableBatch) laterBatch) := by
    refine .step (.step .init ⟨?_, ?_⟩ scan_sample) ⟨?_, ?_⟩ scan_sample
    · apply sampleBatch_genuine
      all_goals decide
    · intro boundary hmay (habove : 143 < boundary) (hscanned : boundary + 1 < 146) height hnewest
      obtain rfl : boundary = 144 := by omega
      have hnewer : 144 ≤ height := hnewest.newest 144 (by decide) (by decide) le_rfl
      obtain rfl : height = 144 := le_antisymm hnewest.le_boundary hnewer
      exact .inl (by unfold DurableAnchors.Durable; decide)
    · apply sampleBatch_genuine
      · decide
      · decide
      · intro height hheight
        obtain ⟨hlow, hhigh⟩ := Finset.mem_Icc.1 hheight
        exact ⟨hlow, Nat.lt_succ_of_le hhigh⟩
      · decide
      · decide
    · intro boundary hmay (habove : 283 < boundary) (hscanned : boundary + 1 < 286)
      obtain rfl : boundary = 284 := by omega
      exact absurd hmay.dvd (by decide)
  refine ⟨_, hrun, by decide, ?_, ?_, first_candidate_kept rfl sampleWallet_before hrun⟩
  · exact mem_createdAfter.2 (.inr (.inl (mem_createdAfter.2 (.inr (.inr (by decide))))))
  · intro hmem
    rcases Finset.mem_insert.1 (Finset.mem_filter.1 hmem).1 with heq | hmem
    · exact absurd heq (by decide)
    · rcases Finset.mem_union.1 hmem with hold | hnew
      · exact durableBatch_prunes hold
      · exact absurd (Finset.mem_Icc.1 hnew).1 (by decide)

end VizorWallet.Migration
