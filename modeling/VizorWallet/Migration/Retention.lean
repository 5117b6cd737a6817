import Mathlib.Data.Finset.Sort
import VizorWallet.Migration.Store.Tables

/-!
# Ownership of retained anchors

The migration asks the wallet to keep the checkpoints its proofs will be anchored at. A table says
which runs want which checkpoint, and which row owns the retention. A pass rebuilds the rows from
what is wanted now: an owned checkpoint that nobody wants gets a row of the sentinel run, which
stays until a later call reports the checkpoint as released.

## Main definitions

* `stageMigrationAnchorRetentionReferences` — the rows of one pass, and what it releases.
* `finishMigrationAnchorRetentionReleases` — the rows of the sentinel run that are done.
* `RetentionCall.run` — calls of both, in any order.

## Main results

* `anchor_retention_owned` — a checkpoint has one owner, and no checkpoint is forgotten.
-/

namespace VizorWallet.Migration

open Store (WalletNetwork)

def retentionReleaseSentinelRunId : String := ""

/-- A row of the table of retained anchors. -/
structure RetainedAnchor where
  network : WalletNetwork
  runId : String
  checkpointHeight : ℕ
  ownsRetention : Bool
  deriving DecidableEq

/-- The primary key. -/
def RetainedAnchor.key (row : RetainedAnchor) : WalletNetwork × String × ℕ :=
  (row.network, row.runId, row.checkpointHeight)

/-- Pairs of a run and a checkpoint, in the order of a `BTreeSet`. -/
structure AnchorReferences where
  toList : List (String × ℕ)
  sorted : toList.Pairwise fun a b => a.1 < b.1 ∨ a.1 = b.1 ∧ a.2 < b.2

def AnchorReferences.heights (references : AnchorReferences) : Finset ℕ :=
  (references.toList.map Prod.snd).toFinset

/-- The checkpoints that librustzcash retains by itself: from a height on, at fixed distances. -/
structure DurableAnchors where
  activationHeight : WalletNetwork → Option ℕ
  blockCount : ℕ

variable (anchors : DurableAnchors)

def DurableAnchors.isWalletDurableAnchor (height : ℕ) (anchorRetentionFloor : Option ℕ) : Bool :=
  anchorRetentionFloor.any (· ≤ height) && height % anchors.blockCount == 0

/-- The anchors of a network that are durable. -/
def DurableAnchors.Durable (network : WalletNetwork) (height : ℕ) : Prop :=
  anchors.isWalletDurableAnchor height (anchors.activationHeight network) = true

/-! ## The table -/

def insertRetainedAnchor (context : String) (table : List RetainedAnchor) (row : RetainedAnchor) :
    Except String (List RetainedAnchor) := do
  ensure (∀ other ∈ table, other.key ≠ row.key) s!"{context}: UNIQUE constraint failed"
  return table ++ [row]

def deleteRetainedAnchors (network : WalletNetwork) (table : List RetainedAnchor) :
    List RetainedAnchor :=
  table.filter (·.network ≠ network)

def currentlyOwned (network : WalletNetwork) (table : List RetainedAnchor) : Finset ℕ :=
  ((table.filter fun row => row.network = network ∧ row.ownsRetention).map
    (·.checkpointHeight)).toFinset

def migrationAnchorRetentionReferences (table : List RetainedAnchor) (network : WalletNetwork) :
    Finset (String × ℕ) :=
  ((table.filter fun row =>
    row.network = network ∧ row.runId ≠ retentionReleaseSentinelRunId).map fun row =>
    (row.runId, row.checkpointHeight)).toFinset

/-- The rows of the references: the first of a checkpoint owns it, if the migration does. -/
def referenceRows (network : WalletNetwork) (migrationOwns : ℕ → Bool) :
    List (String × ℕ) → Finset ℕ → List RetainedAnchor
  | [], _ => []
  | (runId, checkpointHeight) :: desired, ownerAssigned =>
    if migrationOwns checkpointHeight then
      ⟨network, runId, checkpointHeight, checkpointHeight ∉ ownerAssigned⟩ ::
        referenceRows network migrationOwns desired (insert checkpointHeight ownerAssigned)
    else
      ⟨network, runId, checkpointHeight, false⟩ ::
        referenceRows network migrationOwns desired ownerAssigned

/-- The row of a checkpoint that is to be released. -/
def releaseRow (network : WalletNetwork) (checkpointHeight : ℕ) : RetainedAnchor :=
  ⟨network, retentionReleaseSentinelRunId, checkpointHeight, true⟩

section Stage

variable (table : List RetainedAnchor) (network : WalletNetwork) (desired : AnchorReferences)
  (retainedBeforeMaintenance : Finset ℕ)

/-- What is owned but no longer wanted. The durable anchors stay with the wallet. -/
def releases : List ℕ :=
  ((currentlyOwned network table \ desired.heights).sort).filter fun height =>
    !anchors.isWalletDurableAnchor height (anchors.activationHeight network)

def migrationOwns (checkpointHeight : ℕ) : Bool :=
  decide (checkpointHeight ∈ currentlyOwned network table) ||
    decide (checkpointHeight ∉ retainedBeforeMaintenance) ||
    -- Pins of builds before the table are adopted, so that they can be released.
    !anchors.isWalletDurableAnchor checkpointHeight (anchors.activationHeight network)

def stageMigrationAnchorRetentionReferences : Except String (List RetainedAnchor × List ℕ) := do
  let release := releases anchors table network desired
  let rows := referenceRows network (migrationOwns anchors table network retainedBeforeMaintenance)
    desired.toList ∅
  let cleared := deleteRetainedAnchors network table
  let recorded ← rows.foldlM
    (insertRetainedAnchor "Record migration anchor retention reference") cleared
  let staged ← (release.map (releaseRow network)).foldlM
    (insertRetainedAnchor "Stage migration anchor retention release") recorded
  return (staged, release)

end Stage

def finishMigrationAnchorRetentionReleases (table : List RetainedAnchor) (network : WalletNetwork)
    (released : List ℕ) : List RetainedAnchor :=
  released.foldl
    (fun table checkpointHeight => table.filter fun row =>
      row.key ≠ (network, retentionReleaseSentinelRunId, checkpointHeight))
    table

/-! ## Runs -/

inductive RetentionCall where
  | stage (network : WalletNetwork) (desired : AnchorReferences)
      (retainedBeforeMaintenance : Finset ℕ)
  | finish (network : WalletNetwork) (released : List ℕ)

/-- The table after a call. An error rolls the transaction back. -/
def RetentionCall.apply (table : List RetainedAnchor) : RetentionCall → List RetainedAnchor
  | .stage network desired retainedBeforeMaintenance =>
    match stageMigrationAnchorRetentionReferences anchors table network desired
      retainedBeforeMaintenance with
    | .ok (table', _) => table'
    | .error _ => table
  | .finish network released => finishMigrationAnchorRetentionReleases table network released

def RetentionCall.run (table : List RetainedAnchor) (calls : List RetentionCall) :
    List RetainedAnchor :=
  calls.foldl (RetentionCall.apply anchors) table

/-- The checkpoints that the last pass of a network wanted. -/
def lastDesired (network : WalletNetwork) (calls : List RetentionCall) : Finset ℕ :=
  calls.foldl
    (fun wanted call => match call with
      | .stage network' desired _ => if network' = network then desired.heights else wanted
      | .finish _ _ => wanted)
    ∅

/-- Some pass wanted the checkpoint. -/
def WasDesired (network : WalletNetwork) (height : ℕ) (calls : List RetentionCall) : Prop :=
  ∃ desired retained, .stage network desired retained ∈ calls ∧ height ∈ desired.heights

/-- The rows that own a checkpoint. -/
def owners (network : WalletNetwork) (height : ℕ) (table : List RetainedAnchor) :
    List RetainedAnchor :=
  table.filter fun row =>
    row.network = network ∧ row.checkpointHeight = height ∧ row.ownsRetention

/-- The release of the checkpoint was recorded and then reported, and nobody has wanted it since. -/
def ReleasedSince (network : WalletNetwork) (height : ℕ) (table : List RetainedAnchor)
    (calls : List RetentionCall) : Prop :=
  ∃ before released after, calls = before ++ .finish network released :: after ∧
    releaseRow network height ∈ RetentionCall.run anchors table before ∧ height ∈ released ∧
    ¬WasDesired network height after

/-! ## What one pass does -/

section Pass

variable {anchors} {table : List RetainedAnchor} {network : WalletNetwork}
  {desired : AnchorReferences} {retainedBeforeMaintenance : Finset ℕ} {height : ℕ}

theorem insertRetainedAnchors {context : String} {rows : List RetainedAnchor}
    (hrows : (rows.map (·.key)).Nodup) (hnew : ∀ row ∈ rows, ∀ other ∈ table, other.key ≠ row.key) :
    rows.foldlM (insertRetainedAnchor context) table = .ok (table ++ rows) := by
  induction rows generalizing table with
  | nil => simp [pure, Except.pure]
  | cons row rows ih =>
    obtain ⟨hrow, hrows⟩ := List.nodup_cons.1 hrows
    have hfirst : insertRetainedAnchor context table row = .ok (table ++ [row]) := by
      unfold insertRetainedAnchor
      rw [show ensure _ _ = Except.ok () from if_pos (hnew row List.mem_cons_self)]
      rfl
    rw [List.foldlM_cons, hfirst]
    refine (ih hrows ?_).trans (by simp)
    intro other hother row' hrow'
    rcases List.mem_append.1 hrow' with hrow' | hrow'
    · exact hnew other (List.mem_cons_of_mem _ hother) row' hrow'
    · rw [List.mem_singleton.1 hrow']
      intro hkey
      exact hrow (List.mem_map.2 ⟨other, hother, hkey.symm⟩)

theorem map_key_referenceRows (owns : ℕ → Bool) (references : List (String × ℕ))
    (assigned : Finset ℕ) :
    (referenceRows network owns references assigned).map (·.key) =
      references.map fun reference => (network, reference.1, reference.2) := by
  induction references generalizing assigned with
  | nil => rfl
  | cons reference references ih =>
    unfold referenceRows
    split <;> exact congrArg (_ :: ·) (ih _)

theorem AnchorReferences.nodup (references : AnchorReferences) : references.toList.Nodup := by
  refine references.sorted.imp ?_
  rintro a b (h | ⟨-, h⟩) rfl
  · exact absurd h (String.lt_irrefl _)
  · exact absurd h (lt_irrefl _)

theorem AnchorReferences.mem_heights {references : AnchorReferences} :
    height ∈ references.heights ↔ ∃ runId, (runId, height) ∈ references.toList := by
  simp [AnchorReferences.heights]

theorem mem_owners {row : RetainedAnchor} :
    row ∈ owners network height table ↔
      row ∈ table ∧ row.network = network ∧ row.checkpointHeight = height ∧
        row.ownsRetention = true := by
  simp [owners]

theorem mem_currentlyOwned :
    height ∈ currentlyOwned network table ↔ ∃ row, row ∈ owners network height table := by
  simp only [currentlyOwned, mem_owners, List.mem_toFinset, List.mem_map, List.mem_filter,
    decide_eq_true_eq]
  constructor
  · rintro ⟨row, ⟨hrow, hnetwork, howns⟩, rfl⟩
    exact ⟨row, hrow, hnetwork, rfl, howns⟩
  · rintro ⟨row, hrow, hnetwork, rfl, howns⟩
    exact ⟨row, ⟨hrow, hnetwork, howns⟩, rfl⟩

theorem mem_releases :
    height ∈ releases anchors table network desired ↔
      (∃ row, row ∈ owners network height table) ∧ height ∉ desired.heights ∧
        ¬anchors.Durable network height := by
  simp [releases, mem_currentlyOwned, DurableAnchors.Durable, and_assoc]

theorem nodup_releases : (releases anchors table network desired).Nodup :=
  (Finset.sort_nodup _ _).filter _

/-- Only the first reference of a checkpoint owns it. -/
theorem length_owners_referenceRows {owns : ℕ → Bool} {references : List (String × ℕ)}
    {assigned : Finset ℕ} :
    (owners network height (referenceRows network owns references assigned)).length =
      if height ∈ references.map Prod.snd ∧ owns height ∧ height ∉ assigned then 1 else 0 := by
  induction references generalizing assigned with
  | nil => rfl
  | cons reference references ih =>
    obtain ⟨runId, checkpointHeight⟩ := reference
    unfold referenceRows
    by_cases howns : owns checkpointHeight = true
    · rw [if_pos howns, owners, List.filter_cons, ← owners]
      by_cases heq : checkpointHeight = height
      · subst heq
        by_cases hassigned : checkpointHeight ∈ assigned
        · simp [hassigned, ih]
        · simp [hassigned, howns, ih]
      · rw [if_neg (by simp [heq]), ih]
        refine if_congr ?_ rfl rfl
        simp [Ne.symm heq]
    · rw [if_neg howns, owners, List.filter_cons, ← owners]
      by_cases heq : checkpointHeight = height
      · subst heq
        simp [howns, ih]
      · rw [if_neg (by simp), ih]
        refine if_congr ?_ rfl rfl
        simp [Ne.symm heq]

theorem length_owners_releaseRows {release : List ℕ} (hnodup : release.Nodup) :
    (owners network height (release.map (releaseRow network))).length =
      if height ∈ release then 1 else 0 := by
  induction release with
  | nil => rfl
  | cons checkpointHeight release ih =>
    obtain ⟨hnew, hnodup⟩ := List.nodup_cons.1 hnodup
    rw [List.map_cons, owners, List.filter_cons, ← owners]
    by_cases heq : checkpointHeight = height
    · subst heq
      simp [releaseRow, ih hnodup, hnew]
    · rw [if_neg (by simp [releaseRow, heq]), ih hnodup]
      refine if_congr ?_ rfl rfl
      simp [Ne.symm heq]

variable (anchors table network desired retainedBeforeMaintenance) in
/-- The table of a pass, without the checks of its key. -/
def staged : List RetainedAnchor :=
  deleteRetainedAnchors network table ++
    referenceRows network (migrationOwns anchors table network retainedBeforeMaintenance)
      desired.toList ∅ ++
    (releases anchors table network desired).map (releaseRow network)

theorem network_of_mem_referenceRows {owns : ℕ → Bool} {references : List (String × ℕ)}
    {assigned : Finset ℕ} {row : RetainedAnchor}
    (hrow : row ∈ referenceRows network owns references assigned) :
    row.network = network ∧ (row.runId, row.checkpointHeight) ∈ references := by
  have hkey : row.key ∈ (referenceRows network owns references assigned).map (·.key) :=
    List.mem_map_of_mem hrow
  rw [map_key_referenceRows] at hkey
  obtain ⟨reference, hreference, hkey⟩ := List.mem_map.1 hkey
  simp only [RetainedAnchor.key, Prod.mk.injEq] at hkey
  obtain ⟨hnetwork, hrunId, hheight⟩ := hkey
  exact ⟨hnetwork.symm, by rwa [← hrunId, ← hheight]⟩

/-- A pass never fails: what it inserts has new keys. -/
theorem stageMigrationAnchorRetentionReferences_eq :
    stageMigrationAnchorRetentionReferences anchors table network desired
      retainedBeforeMaintenance =
      .ok (staged anchors table network desired retainedBeforeMaintenance,
        releases anchors table network desired) := by
  have hcleared : ∀ other ∈ deleteRetainedAnchors network table, other.network ≠ network := by
    simp [deleteRetainedAnchors]
  have hrecorded := @insertRetainedAnchors (deleteRetainedAnchors network table)
    "Record migration anchor retention reference"
    (referenceRows network (migrationOwns anchors table network retainedBeforeMaintenance)
      desired.toList ∅)
    (by
      rw [map_key_referenceRows]
      refine desired.nodup.map fun a b hab => ?_
      simpa [Prod.ext_iff] using hab)
    (fun row hrow other hother hkey => hcleared other hother <|
      (congrArg Prod.fst hkey).trans (network_of_mem_referenceRows hrow).1)
  have hstaged := @insertRetainedAnchors (deleteRetainedAnchors network table ++
      referenceRows network (migrationOwns anchors table network retainedBeforeMaintenance)
        desired.toList ∅)
    "Stage migration anchor retention release"
    ((releases anchors table network desired).map (releaseRow network))
    (by
      rw [List.map_map]
      refine nodup_releases.map fun a b hab => ?_
      simpa [releaseRow, RetainedAnchor.key] using hab)
    (by
      intro row hrow other hother hkey
      obtain ⟨height, hheight, rfl⟩ := List.mem_map.1 hrow
      rcases List.mem_append.1 hother with hother | hother
      · exact hcleared other hother (congrArg Prod.fst hkey)
      · have hreference := (network_of_mem_referenceRows hother).2
        have heq : other.checkpointHeight = height := congrArg (·.2.2) hkey
        rw [heq] at hreference
        exact (mem_releases.1 hheight).2.1 (AnchorReferences.mem_heights.2 ⟨_, hreference⟩))
  simp only [stageMigrationAnchorRetentionReferences, hrecorded, hstaged, bind, Except.bind]
  rfl

theorem mem_staged {row : RetainedAnchor} :
    row ∈ staged anchors table network desired retainedBeforeMaintenance ↔
      (row ∈ table ∧ row.network ≠ network) ∨
      row ∈ referenceRows network
        (migrationOwns anchors table network retainedBeforeMaintenance) desired.toList ∅ ∨
      ∃ height ∈ releases anchors table network desired, row = releaseRow network height := by
  simp only [staged, deleteRetainedAnchors, List.mem_append, List.mem_filter, List.mem_map,
    decide_eq_true_eq, or_assoc]
  simp only [eq_comm]

theorem length_owners_staged :
    (owners network height
      (staged anchors table network desired retainedBeforeMaintenance)).length =
      if height ∈ desired.heights then
        if migrationOwns anchors table network retainedBeforeMaintenance height then 1 else 0
      else if height ∈ releases anchors table network desired then 1 else 0 := by
  have hcleared : owners network height (deleteRetainedAnchors network table) = [] := by
    rw [owners, deleteRetainedAnchors, List.filter_filter, List.filter_eq_nil_iff]
    intro row _ hrow
    simp only [Bool.and_eq_true, decide_eq_true_eq] at hrow
    exact hrow.2 hrow.1.1
  have hdesired : height ∈ desired.heights ↔ height ∈ desired.toList.map Prod.snd := by
    simp [AnchorReferences.heights]
  rw [staged, owners, List.filter_append, List.filter_append, ← owners, ← owners, ← owners,
    hcleared, List.nil_append, List.length_append, length_owners_referenceRows,
    length_owners_releaseRows nodup_releases]
  by_cases hheight : height ∈ desired.heights
  · have hrelease : height ∉ releases anchors table network desired :=
      fun h => (mem_releases.1 h).2.1 hheight
    rw [if_pos hheight, if_neg hrelease, add_zero]
    exact if_congr (by simp [hdesired.1 hheight]) rfl rfl
  · rw [if_neg hheight, if_neg fun h => hheight (hdesired.2 h.1), zero_add]

/-- Of an anchor that is not durable, whatever is wanted or was owned is owned afterwards. -/
theorem exists_owner_staged (hdurable : ¬anchors.Durable network height)
    (h : height ∈ desired.heights ∨ ∃ row, row ∈ owners network height table) :
    (owners network height
      (staged anchors table network desired retainedBeforeMaintenance)).length = 1 := by
  rw [length_owners_staged]
  by_cases hheight : height ∈ desired.heights
  · have howns : migrationOwns anchors table network retainedBeforeMaintenance height = true := by
      simp only [DurableAnchors.Durable, Bool.not_eq_true] at hdurable
      simp [migrationOwns, hdurable]
    rw [if_pos hheight, if_pos howns]
  · have howner := h.resolve_left hheight
    rw [if_neg hheight, if_pos (mem_releases.2 ⟨howner, hheight, hdurable⟩)]

theorem mem_referenceRows {owns : ℕ → Bool} {references : List (String × ℕ)} {assigned : Finset ℕ}
    {reference : String × ℕ} (h : reference ∈ references) :
    ∃ row ∈ referenceRows network owns references assigned,
      row.key = (network, reference.1, reference.2) := by
  have hkey : (network, reference.1, reference.2) ∈
      (referenceRows network owns references assigned).map (·.key) := by
    rw [map_key_referenceRows]
    exact List.mem_map.2 ⟨reference, h, rfl⟩
  simpa using hkey

/-- The next pass reads back what this one wanted. -/
theorem migrationAnchorRetentionReferences_staged
    (hruns : ∀ reference ∈ desired.toList, reference.1 ≠ retentionReleaseSentinelRunId) :
    migrationAnchorRetentionReferences
        (staged anchors table network desired retainedBeforeMaintenance) network =
      desired.toList.toFinset := by
  ext ⟨runId, checkpointHeight⟩
  simp only [migrationAnchorRetentionReferences, List.mem_toFinset, List.mem_map, List.mem_filter,
    mem_staged, decide_eq_true_eq]
  constructor
  · rintro ⟨row, ⟨⟨-, hother⟩ | hreference | ⟨height, -, rfl⟩, hnetwork, hrunId⟩, hpair⟩
    · exact absurd hnetwork hother
    · exact hpair ▸ (network_of_mem_referenceRows hreference).2
    · exact absurd rfl hrunId
  · intro hreference
    obtain ⟨row, hrow, hkey⟩ : ∃ row ∈ referenceRows network
        (migrationOwns anchors table network retainedBeforeMaintenance) desired.toList ∅,
        row.key = (network, runId, checkpointHeight) := mem_referenceRows hreference
    simp only [RetainedAnchor.key, Prod.mk.injEq] at hkey
    obtain ⟨hnetwork, hrunId, hheight⟩ := hkey
    exact ⟨row, ⟨.inr (.inl hrow), hnetwork, hrunId ▸ hruns _ hreference⟩, by rw [hrunId, hheight]⟩

theorem mem_finishMigrationAnchorRetentionReleases {released : List ℕ} {row : RetainedAnchor} :
    row ∈ finishMigrationAnchorRetentionReleases table network released ↔
      row ∈ table ∧ ∀ height ∈ released,
        row.key ≠ (network, retentionReleaseSentinelRunId, height) := by
  unfold finishMigrationAnchorRetentionReleases
  induction released generalizing table with
  | nil => simp
  | cons height released ih =>
    rw [List.foldl_cons, ih]
    simp [and_assoc]

end Pass

/-! ## What the calls preserve -/

section Calls

variable {anchors} {table : List RetainedAnchor} {network : WalletNetwork}
  {calls : List RetentionCall} {call : RetentionCall} {height : ℕ}

theorem run_snoc : RetentionCall.run anchors table (calls ++ [call]) =
    call.apply anchors (RetentionCall.run anchors table calls) := by
  simp [RetentionCall.run]

@[simp] theorem apply_stage {network' : WalletNetwork} {desired : AnchorReferences}
    {retained : Finset ℕ} :
    (RetentionCall.stage network' desired retained).apply anchors table =
      staged anchors table network' desired retained := by
  simp only [RetentionCall.apply, stageMigrationAnchorRetentionReferences_eq]

@[simp] theorem lastDesired_stage {network' : WalletNetwork} {desired : AnchorReferences}
    {retained : Finset ℕ} :
    lastDesired network (calls ++ [.stage network' desired retained]) =
      if network' = network then desired.heights else lastDesired network calls := by
  simp [lastDesired]

@[simp] theorem lastDesired_finish {network' : WalletNetwork} {released : List ℕ} :
    lastDesired network (calls ++ [.finish network' released]) = lastDesired network calls := by
  simp [lastDesired]

theorem wasDesired_snoc : WasDesired network height (calls ++ [call]) ↔
    WasDesired network height calls ∨ WasDesired network height [call] := by
  simp only [WasDesired, List.mem_append, or_and_right, exists_or]

@[simp] theorem wasDesired_stage {network' : WalletNetwork} {desired : AnchorReferences}
    {retained : Finset ℕ} : WasDesired network height [.stage network' desired retained] ↔
      network = network' ∧ height ∈ desired.heights := by
  simp [WasDesired]

@[simp] theorem not_wasDesired_finish {network' : WalletNetwork} {released : List ℕ} :
    ¬WasDesired network height [.finish network' released] := by
  simp [WasDesired]

theorem ReleasedSince.snoc (h : ReleasedSince anchors network height table calls)
    (hcall : ¬WasDesired network height [call]) :
    ReleasedSince anchors network height table (calls ++ [call]) := by
  obtain ⟨before, released, after, rfl, hrow, hheight, hafter⟩ := h
  refine ⟨before, released, after ++ [call], by simp, hrow, hheight, fun hdesired => ?_⟩
  rcases wasDesired_snoc.1 hdesired with hdesired | hdesired
  · exact hafter hdesired
  · exact hcall hdesired

variable (anchors network table calls height) in
/-- An anchor that was wanted is owned until its release has been reported, and its owner is one of
the runs that want it or the sentinel run. -/
structure Kept : Prop where
  owned : ¬anchors.Durable network height → WasDesired network height calls →
    (∃ row, row ∈ owners network height (RetentionCall.run anchors table calls)) ∨
      ReleasedSince anchors network height table calls
  owner : WasDesired network height calls →
    ∀ row ∈ owners network height (RetentionCall.run anchors table calls),
      height ∈ lastDesired network calls ∨ row = releaseRow network height

theorem Kept.stage (h : Kept anchors table network calls height) (network' : WalletNetwork)
    (desired : AnchorReferences) (retained : Finset ℕ) :
    Kept anchors table network (calls ++ [.stage network' desired retained]) height := by
  by_cases hnetwork : network' = network
  · subst hnetwork
    constructor
    · intro hdurable hdesired
      rw [run_snoc, apply_stage]
      by_cases hheight : height ∈ desired.heights
      · exact .inl <| List.exists_mem_of_length_pos <|
          (exists_owner_staged hdurable (.inl hheight)).symm ▸ Nat.one_pos
      have hearlier : WasDesired network' height calls := by
        simpa [wasDesired_snoc, hheight] using hdesired
      rcases h.owned hdurable hearlier with howner | hreleased
      · exact .inl <| List.exists_mem_of_length_pos <|
          (exists_owner_staged hdurable (.inr howner)).symm ▸ Nat.one_pos
      · exact .inr (hreleased.snoc (by simp [hheight]))
    · intro _ row hrow
      rw [run_snoc, apply_stage] at hrow
      obtain ⟨hmem, hrowNetwork, rfl, -⟩ := mem_owners.1 hrow
      rw [lastDesired_stage, if_pos rfl]
      rcases mem_staged.1 hmem with ⟨-, hother⟩ | hreference | ⟨height, -, rfl⟩
      · exact absurd hrowNetwork hother
      · exact .inl (AnchorReferences.mem_heights.2
          ⟨row.runId, (network_of_mem_referenceRows hreference).2⟩)
      · exact .inr rfl
  · -- A pass of another network leaves the rows of this one.
    have hdesired : ¬WasDesired network height [.stage network' desired retained] := by
      simp [Ne.symm hnetwork]
    have howners : ∀ row,
        row ∈ owners network height
          (staged anchors (RetentionCall.run anchors table calls) network' desired retained) ↔
        row ∈ owners network height (RetentionCall.run anchors table calls) := by
      intro row
      rw [mem_owners, mem_owners]
      refine and_congr_left fun hrow => ?_
      rw [mem_staged]
      constructor
      · rintro (⟨h, -⟩ | hreference | ⟨other, -, rfl⟩)
        · exact h
        · exact absurd ((network_of_mem_referenceRows hreference).1.symm.trans hrow.1) hnetwork
        · exact absurd hrow.1 hnetwork
      · intro h
        exact .inl ⟨h, fun heq => hnetwork (heq.symm.trans hrow.1)⟩
    constructor
    · intro hdurable hwas
      rw [wasDesired_snoc, or_iff_left hdesired] at hwas
      rw [run_snoc, apply_stage]
      simp only [howners]
      exact (h.owned hdurable hwas).imp_right (·.snoc hdesired)
    · intro hwas row hrow
      rw [wasDesired_snoc, or_iff_left hdesired] at hwas
      rw [run_snoc, apply_stage, howners] at hrow
      rw [lastDesired_stage, if_neg hnetwork]
      exact h.owner hwas row hrow

theorem Kept.finish (h : Kept anchors table network calls height) (network' : WalletNetwork)
    (released : List ℕ) :
    Kept anchors table network (calls ++ [.finish network' released]) height := by
  have hdesired : ¬WasDesired network height [.finish network' released] := not_wasDesired_finish
  constructor
  · intro hdurable hwas
    rw [wasDesired_snoc, or_iff_left hdesired] at hwas
    rcases h.owned hdurable hwas with ⟨row, hrow⟩ | hreleased
    · obtain ⟨hmem, hnetwork, hheight, howns⟩ := mem_owners.1 hrow
      by_cases hkeys : ∀ height ∈ released,
          row.key ≠ (network', retentionReleaseSentinelRunId, height)
      · left
        rw [run_snoc]
        exact ⟨row, mem_owners.2 ⟨mem_finishMigrationAnchorRetentionReleases.2 ⟨hmem, hkeys⟩,
          hnetwork, hheight, howns⟩⟩
      · -- The owner goes, so it was the row of the sentinel run and is reported now.
        right
        push Not at hkeys
        obtain ⟨height', hreleased, hkey⟩ := hkeys
        simp only [RetainedAnchor.key, Prod.mk.injEq] at hkey
        obtain ⟨rfl, hrunId, rfl⟩ := hkey
        subst hnetwork hheight
        have hrelease : row = releaseRow row.network row.checkpointHeight := by
          obtain ⟨_, _, _, _⟩ := row
          subst hrunId howns
          rfl
        exact ⟨calls, released, [], rfl, hrelease ▸ hmem, hreleased, by simp [WasDesired]⟩
    · exact .inr (hreleased.snoc hdesired)
  · intro hwas row hrow
    rw [wasDesired_snoc, or_iff_left hdesired] at hwas
    rw [run_snoc] at hrow
    obtain ⟨hmem, hrow⟩ := mem_owners.1 hrow
    rw [lastDesired_finish]
    exact h.owner hwas row
      (mem_owners.2 ⟨(mem_finishMigrationAnchorRetentionReleases.1 hmem).1, hrow⟩)

theorem kept (anchors : DurableAnchors) (table : List RetainedAnchor) (network : WalletNetwork)
    (calls : List RetentionCall) (height : ℕ) : Kept anchors table network calls height := by
  induction calls using List.reverseRecOn with
  | nil => exact ⟨by simp [WasDesired], by simp [WasDesired]⟩
  | append_singleton calls call ih =>
    cases call with
    | stage network' desired retained => exact ih.stage network' desired retained
    | finish network' released => exact ih.finish network' released

end Calls

/-- Whatever the calls before it, a pass gives a checkpoint at most one owner, and one that is
wanted and not durable exactly one; it releases only what nobody wants and what is not durable. An
anchor that is not durable and was wanted once is still wanted, or recorded for release, or its
recorded release has been reported since. -/
theorem anchor_retention_owned (anchors : DurableAnchors) (network : WalletNetwork)
    (table : List RetainedAnchor) (calls : List RetentionCall) :
    (∀ desired retained, ∃ table' released,
      stageMigrationAnchorRetentionReferences anchors (RetentionCall.run anchors table calls)
        network desired retained = .ok (table', released) ∧
      (∀ height, (owners network height table').length ≤ 1 ∧
        (height ∈ desired.heights → ¬anchors.Durable network height →
          (owners network height table').length = 1)) ∧
      ∀ height ∈ released, height ∉ desired.heights ∧ ¬anchors.Durable network height) ∧
    ∀ height, ¬anchors.Durable network height → WasDesired network height calls →
      height ∈ lastDesired network calls ∨
      releaseRow network height ∈ RetentionCall.run anchors table calls ∨
      ReleasedSince anchors network height table calls := by
  constructor
  · intro desired retained
    refine ⟨_, _, stageMigrationAnchorRetentionReferences_eq, fun height => ⟨?_, ?_⟩, ?_⟩
    · rw [length_owners_staged]
      split_ifs <;> omega
    · exact fun hheight hdurable => exists_owner_staged hdurable (.inl hheight)
    · exact fun height hheight => (mem_releases.1 hheight).2
  · intro height hdurable hdesired
    obtain ⟨howned, howner⟩ := kept anchors table network calls height
    rcases howned hdurable hdesired with ⟨row, hrow⟩ | hreleased
    · rcases howner hdesired row hrow with hwanted | rfl
      · exact .inl hwanted
      · exact .inr (.inl (mem_owners.1 hrow).1)
    · exact .inr (.inr hreleased)

end VizorWallet.Migration
