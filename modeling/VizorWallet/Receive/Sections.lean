import VizorWallet.Library.Processes
import VizorWallet.Library.Transition
import VizorWallet.Receive.Cache

/-!
# Overlapping operations on the receive cache

All writers of the sidecar but `markAccountDirty` read the record in one locked section and write it
whole in another. The sections of overlapping operations are the steps here, and the wallet database
changes between them. A write puts back what was read: the addresses that were current then, whether
they were dirty, and the completions that were there. It undoes a `markAccountDirty` or an
invalidation that came in between.

## Main definitions

* `Operation` — the calls on the cache, with what they were given.
* `World`, `Event` — the sidecar, the database and the calls under way; the sections.
* `Undisturbed` — a write does not bring back what a call in between has withdrawn.
* `Uncrossed` — no call that withdraws anything came in between.

## Main results

* `Operation.run_external`, `Operation.run_present` — what a write puts into the sidecar.
* `step_sound` — what one undisturbed section keeps.
* `Recent.undisturbed` — an uncrossed write is undisturbed.
* `undisturbed_current` — the addresses and completions in runs of undisturbed sections.
* `withdrawn_brought_back` — two runs of which the last write is disturbed.
-/

namespace VizorWallet.Receive.Sections

open Migration.Store (WalletNetwork)

/-! ## Completions and addresses of a sidecar -/

/-- A completion belongs to an external child or to another address. -/
inductive Key
  | external (childIndex : ℕ)
  | other (address : String)
  deriving DecidableEq

def completions (record : CacheRecord) : List (Key × ℕ) :=
  record.utxoCheckedHeights.map (fun entry => (.external entry.1, entry.2)) ++
    record.nonExternalCheckedHeights.map fun entry => (.other entry.1, entry.2)

/-- The completions that are present, in a record of any version and network. -/
def present (sidecar : Sidecar) : List (Key × ℕ) :=
  match readRecord sidecar with
  | .ok (some record) => completions record
  | _ => []

/-- The addresses of a record that is not dirty. -/
def cleanAddresses (network : WalletNetwork) (sidecar : Sidecar) :
    Option (List CachedExternalAddress) :=
  match cleanRecord network sidecar with
  | .ok (some record) => some record.externalAddresses
  | _ => none

/-- No address before this one could be handed out, and it was not used. -/
def FirstUnused (database : List CachedExternalAddress) (entry : CachedExternalAddress) : Prop :=
  ¬ entry.hasReceived ∧ ∀ other ∈ database, other.address ≠ "" → ¬ other.hasReceived →
    entry.childIndex ≤ other.childIndex

/-! ## Operations -/

/-- A completion that a call records, with the number of invalidations before the read of the plan
that it completes. -/
structure Mark where
  key : Key
  height : ℕ
  planned : ℕ
  deriving DecidableEq

/-- The calls that work in two sections, with what they were given. A mark of a batch knows how many
invalidations there were when the batch was planned. -/
inductive Operation
  | refreshAccountCacheFromWalletDb (addresses : List CachedExternalAddress)
      (scannedHeight : Option ℕ)
  | planExternalUtxoRefresh (addresses : List CachedExternalAddress)
      (birthday safety recentLimit sweepLimit : ℕ)
  | markUtxoRefreshBatchComplete (planned : ℕ) (batch : TransparentUtxoRefreshBatch)
      (nextStartHeight nowSeconds : ℕ)
  | markNonExternalUtxoRefreshComplete (planned : ℕ) (addresses : List String)
      (nextStartHeight : ℕ) (nextSweepOffset : Option ℕ) (nowSeconds : ℕ)
  | invalidateUtxoChecks

namespace Operation

variable (network : WalletNetwork)

/-- The batches of a call and the sidecar that it writes, from the sidecar that it has read. -/
def run : Operation → Sidecar → Except String (List TransparentUtxoRefreshBatch × Sidecar)
  | refreshAccountCacheFromWalletDb addresses scannedHeight, sidecar => do
    return ([], ← writeCleanAddresses network addresses scannedHeight sidecar)
  | planExternalUtxoRefresh addresses birthday safety recentLimit sweepLimit, sidecar =>
    Receive.planExternalUtxoRefresh network addresses birthday safety recentLimit sweepLimit sidecar
  | markUtxoRefreshBatchComplete _ batch nextStartHeight nowSeconds, sidecar => do
    return ([], ← Receive.markUtxoRefreshBatchComplete network batch.childIndices nextStartHeight
      batch.nextSweepOffset nowSeconds sidecar)
  | markNonExternalUtxoRefreshComplete _ addresses nextStartHeight nextSweepOffset nowSeconds,
      sidecar => do
    return ([], ← markNonExternalUtxoRefreshCompleteWithSweep network addresses nextStartHeight
      nextSweepOffset nowSeconds sidecar)
  | invalidateUtxoChecks, sidecar => do
    return ([], ← Receive.invalidateUtxoChecks sidecar)

/-- There is a second section: the marks need a record of this version and network, and the
invalidation needs any record. -/
def writes (sidecar : Sidecar) : Operation → Bool
  | refreshAccountCacheFromWalletDb .. => true
  | planExternalUtxoRefresh .. => true
  | markUtxoRefreshBatchComplete _ batch _ _ =>
    batch.childIndices ≠ [] ∧ (readCompatibleRecord network sidecar matches .ok (some _))
  | markNonExternalUtxoRefreshComplete .. =>
    (readCompatibleRecord network sidecar matches .ok (some _))
  | invalidateUtxoChecks => (readRecord sidecar matches .ok (some _))

/-- The completions that a call adds. -/
def marks : Operation → List Mark
  | markUtxoRefreshBatchComplete planned batch nextStartHeight _ =>
    batch.childIndices.map (⟨.external ·, nextStartHeight, planned⟩)
  | markNonExternalUtxoRefreshComplete planned addresses nextStartHeight _ _ =>
    addresses.map (⟨.other ·, nextStartHeight, planned⟩)
  | _ => []

/-- A completion that was read is written back. -/
def carries : Operation → Key → Bool
  | refreshAccountCacheFromWalletDb addresses _, .external childIndex =>
    childIndex ∈ (allExternalAddresses addresses).map (·.childIndex)
  | planExternalUtxoRefresh addresses _ _ _ _, .external childIndex =>
    childIndex ∈ (allExternalAddresses addresses).map (·.childIndex)
  | markUtxoRefreshBatchComplete _ batch _ _, .external childIndex =>
    childIndex ∉ batch.childIndices
  | markNonExternalUtxoRefreshComplete _ addresses _ _ _, .other address => address ∉ addresses
  | invalidateUtxoChecks, _ => false
  | _, _ => true

/-- The addresses that a call writes as clean: those of the database that it was given, or those of
the clean record that it has read. -/
def external (sidecar : Sidecar) : Operation → Option (List CachedExternalAddress)
  | refreshAccountCacheFromWalletDb addresses _ => some (projectedExternalAddresses addresses)
  | planExternalUtxoRefresh addresses _ _ _ _ => some (projectedExternalAddresses addresses)
  | _ => cleanAddresses network sidecar

/-- The call is given the addresses of the database when it begins. -/
def takesAddresses : Operation → Bool
  | refreshAccountCacheFromWalletDb .. | planExternalUtxoRefresh .. => true
  | _ => false

end Operation

/-! ## The world -/

/-- A call under way: after its first section, what it has read and the number of invalidations
that had returned then. `since` is how often the account was marked dirty before the call took the
addresses that it may write as clean. -/
structure Process where
  operation : Operation
  since : ℕ
  read : Option (Sidecar × ℕ)

/-- The wallet database and the sidecar of one account, and the calls under way. `unmarked` changes
of the database wait for their `markAccountDirty`; how often the account was `dirtied`, the
`invalidations`, the batches `planned` and the `marks` written are counted for the statements
only. -/
structure World where
  database : List CachedExternalAddress
  sidecar : Sidecar
  processes : List Process
  unmarked : ℕ
  dirtied : ℕ
  invalidations : ℕ
  planned : List (ℕ × TransparentUtxoRefreshBatch)
  marks : List Mark

inductive Event
  | changeDatabase (database : List CachedExternalAddress)
  | markAccountDirty
  /-- A call begins, and reads the wallet database when it needs addresses. -/
  | start (operation : Operation)
  | readRecord (i : ℕ)
  | writeRecord (i : ℕ)

namespace World

/-- Addresses come from the database, and marks complete queries that were planned. -/
def Starts (world : World) : Operation → Prop
  | .refreshAccountCacheFromWalletDb addresses _ => addresses = world.database
  | .planExternalUtxoRefresh addresses _ _ _ _ => addresses = world.database
  | .markUtxoRefreshBatchComplete planned batch _ _ => (planned, batch) ∈ world.planned
  | .markNonExternalUtxoRefreshComplete planned _ _ _ _ => planned ≤ world.invalidations
  | .invalidateUtxoChecks => True

instance (world : World) : DecidablePred world.Starts := fun operation => by
  cases operation <;> unfold Starts <;> infer_instance

/-- A call has returned. -/
def finish (world : World) (i : ℕ) (operation : Operation) : World :=
  { world with
    processes := world.processes.eraseIdx i
    invalidations := match operation with
      | .invalidateUtxoChecks => world.invalidations + 1
      | _ => world.invalidations }

def step (network : WalletNetwork) (world : World) : Event → Option World
  | .changeDatabase database =>
    some { world with database, unmarked := world.unmarked + 1 }
  | .markAccountDirty =>
    let marked := { world with unmarked := world.unmarked - 1, dirtied := world.dirtied + 1 }
    match Receive.markAccountDirty world.sidecar with
    | .ok sidecar => some { marked with sidecar }
    | .error _ => some marked
  | .start operation =>
    if world.Starts operation then
      some { world with processes := world.processes ++ [⟨operation, world.dirtied, none⟩] }
    else none
  | .readRecord i =>
    match world.processes[i]? with
    | some ⟨operation, since, none⟩ =>
      match operation.run network world.sidecar with
      | .ok _ =>
        some (if operation.writes network world.sidecar then
          { world with
            processes := world.processes.set i
              ⟨operation, if operation.takesAddresses then since else world.dirtied,
                some (world.sidecar, world.invalidations)⟩ }
        else world.finish i operation)
      | .error _ => some { world with processes := world.processes.eraseIdx i }
    | _ => none
  | .writeRecord i =>
    match world.processes[i]? with
    | some ⟨operation, _, some (snapshot, invalidations)⟩ =>
      match operation.run network snapshot with
      | .ok (batches, sidecar) =>
        some ({ world with
          sidecar
          planned := world.planned ++ batches.map (invalidations, ·)
          marks := world.marks ++ operation.marks }.finish i operation)
      | .error _ => none
    | _ => none

end World

/-- A cache that was never written, over any wallet database. -/
def cache (network : WalletNetwork) (database : List CachedExternalAddress) :
    Transition World Event where
  init := ⟨database, .missing, [], 0, 0, 0, [], []⟩
  step := World.step network

/-- A write is undisturbed when its addresses are those of the database, or the mark of a change is
still to come; when the completions that it carries over were read after the last invalidation; and
when the queries that it completes were planned after the last invalidation. -/
def Undisturbed (network : WalletNetwork) (world : World) : Event → Prop
  | .writeRecord i => ∀ process ∈ world.processes[i]?, ∀ read ∈ process.read,
    (∀ addresses ∈ process.operation.external network read.1,
      addresses = projectedExternalAddresses world.database ∨ 0 < world.unmarked) ∧
    (∀ completion ∈ present read.1, process.operation.carries completion.1 →
      read.2 = world.invalidations) ∧
    ∀ mark ∈ process.operation.marks, mark.planned = world.invalidations
  | _ => True

instance (network : WalletNetwork) (world : World) : DecidablePred (Undisturbed network world) :=
  fun event => by cases event <;> unfold Undisturbed <;> infer_instance

/-- A write is uncrossed when the account was not marked dirty since the call took its addresses, or
a change is still to be marked; and when there was no invalidation since the call has read, and none
since the queries that it completes were planned. -/
def Uncrossed (world : World) : Event → Prop
  | .writeRecord i => ∀ process ∈ world.processes[i]?, ∀ read ∈ process.read,
    (process.since = world.dirtied ∨ 0 < world.unmarked) ∧
    ((process.operation matches .invalidateUtxoChecks) ∨ read.2 = world.invalidations) ∧
    ∀ mark ∈ process.operation.marks, mark.planned = world.invalidations
  | _ => True

instance (world : World) : DecidablePred (Uncrossed world) :=
  fun event => by cases event <;> unfold Uncrossed <;> infer_instance

variable {network : WalletNetwork} {sidecar sidecar' : Sidecar} {record raw : CacheRecord}
  {existing : Option CacheRecord} {batches : List TransparentUtxoRefreshBatch}
  {operation : Operation}

/-! ## Reads -/

theorem mem_completions {completion : Key × ℕ} (h : completion ∈ completions record) :
    (∃ entry ∈ record.utxoCheckedHeights, completion = (.external entry.1, entry.2)) ∨
      ∃ entry ∈ record.nonExternalCheckedHeights, completion = (.other entry.1, entry.2) := by
  obtain h | h := List.mem_append.1 h
  · obtain ⟨entry, hentry, rfl⟩ := List.mem_map.1 h
    exact .inl ⟨entry, hentry, rfl⟩
  · obtain ⟨entry, hentry, rfl⟩ := List.mem_map.1 h
    exact .inr ⟨entry, hentry, rfl⟩

theorem external_mem_completions {entry : ℕ × ℕ} (h : entry ∈ record.utxoCheckedHeights) :
    (Key.external entry.1, entry.2) ∈ completions record :=
  List.mem_append_left _ (List.mem_map.2 ⟨entry, h, rfl⟩)

theorem other_mem_completions {entry : String × ℕ} (h : entry ∈ record.nonExternalCheckedHeights) :
    (Key.other entry.1, entry.2) ∈ completions record :=
  List.mem_append_right _ (List.mem_map.2 ⟨entry, h, rfl⟩)

theorem present_of_read (h : readRecord sidecar = .ok (some record)) :
    present sidecar = completions record := by
  rw [present, h]

theorem present_writeRecord {completion : Key × ℕ} (h : completion ∈ present (writeRecord record)) :
    completion ∈ completions record := by
  obtain ⟨entry, hentry, rfl⟩ | ⟨entry, hentry, rfl⟩ := mem_completions h
  · exact external_mem_completions hentry
  · exact other_mem_completions (mem_collect hentry)

/-- Retiring a completion of an older build drops completions at most. -/
theorem mem_completions_retire {completion : Key × ℕ}
    (h : completion ∈ completions (retireLegacyCompletion record)) :
    completion ∈ completions record := by
  unfold retireLegacyCompletion at h
  dsimp only at h
  split_ifs at h
  · cases h
  · exact h

/-- A compatible record is the record that is stored. -/
theorem readRecord_of_compatible (h : readCompatibleRecord network sidecar = .ok (some record)) :
    ∃ raw, readRecord sidecar = .ok (some raw) ∧ record = retireLegacyCompletion raw := by
  simp only [readCompatibleRecord, bind_eq_ok] at h
  obtain ⟨found, hread, h⟩ := h
  split at h
  · cases h
  · rename_i raw
    split_ifs at h
    · cases h
      exact ⟨raw, hread, rfl⟩
    · cases h

theorem present_of_compatible (h : readCompatibleRecord network sidecar = .ok (some record))
    {completion : Key × ℕ} (hmem : completion ∈ completions record) :
    completion ∈ present sidecar := by
  obtain ⟨raw, hread, rfl⟩ := readRecord_of_compatible h
  rw [present_of_read hread]
  exact mem_completions_retire hmem

theorem cleanRecord_eq_some : cleanRecord network sidecar = .ok (some record) ↔
    readRecord sidecar = .ok (some record) ∧ record.version = cacheVersion ∧
      record.network = networkCacheKey network ∧ record.dirty = false := by
  rw [cleanRecord]
  cases hread : readRecord sidecar with
  | error error => simp
  | ok found =>
    cases found with
    | none => simp [pure_eq_ok]
    | some raw =>
      rw [ok_bind]
      dsimp only
      split_ifs with hrefused
      · simp only [pure_eq_ok, reduceCtorEq, false_iff]
        rintro ⟨heq, hversion, hnetwork, hdirty⟩
        obtain rfl := Option.some.inj (Except.ok.inj heq)
        simp [hversion, hnetwork, hdirty] at hrefused
      · simp only [pure_eq_ok, Except.ok.injEq, Option.some.injEq]
        refine ⟨?_, fun h => h.1⟩
        rintro rfl
        simpa [not_or] using hrefused

theorem cleanAddresses_eq_some {addresses : List CachedExternalAddress} :
    cleanAddresses network sidecar = some addresses ↔
      ∃ record, cleanRecord network sidecar = .ok (some record) ∧
        record.externalAddresses = addresses := by
  unfold cleanAddresses
  split
  · rename_i record hclean
    simp [hclean]
  · rename_i hclean
    constructor
    · intro h
      cases h
    · rintro ⟨record, hrecord, -⟩
      exact absurd hrecord (hclean record)

/-- The addresses of a record that was written clean. -/
theorem cleanAddresses_writeRecord {addresses : List CachedExternalAddress}
    (h : cleanAddresses network (writeRecord record) = some addresses) :
    addresses = record.externalAddresses ∧ record.dirty = false := by
  obtain ⟨stored, hstored, rfl⟩ := cleanAddresses_eq_some.1 h
  obtain ⟨hread, -, -, hdirty⟩ := cleanRecord_eq_some.1 hstored
  cases hread
  exact ⟨rfl, hdirty⟩

/-- A record keeps what makes it clean, and its addresses. -/
structure KeepsAddresses (before after : CacheRecord) : Prop where
  version : after.version = before.version
  network : after.network = before.network
  dirty : after.dirty = before.dirty
  externalAddresses : after.externalAddresses = before.externalAddresses

theorem keepsAddresses_retire (record : CacheRecord) :
    KeepsAddresses record (retireLegacyCompletion record) := by
  unfold retireLegacyCompletion
  dsimp only
  split_ifs <;> exact ⟨rfl, rfl, rfl, rfl⟩

theorem KeepsAddresses.trans {first second third : CacheRecord} (h : KeepsAddresses first second)
    (h' : KeepsAddresses second third) : KeepsAddresses first third :=
  ⟨h'.version.trans h.version, h'.network.trans h.network, h'.dirty.trans h.dirty,
    h'.externalAddresses.trans h.externalAddresses⟩

theorem cleanAddresses_of_keeps {addresses : List CachedExternalAddress}
    (hread : readRecord sidecar = .ok (some raw)) (hkeeps : KeepsAddresses raw record)
    (h : cleanAddresses network (writeRecord record) = some addresses) :
    cleanAddresses network sidecar = some addresses := by
  obtain ⟨stored, hstored, rfl⟩ := cleanAddresses_eq_some.1 h
  obtain ⟨hsame, hversion, hnetwork, hdirty⟩ := cleanRecord_eq_some.1 hstored
  cases hsame
  refine cleanAddresses_eq_some.2 ⟨raw, cleanRecord_eq_some.2 ⟨hread, ?_, ?_, ?_⟩, ?_⟩
  · exact hkeeps.version.symm.trans hversion
  · exact hkeeps.network.symm.trans hnetwork
  · exact hkeeps.dirty.symm.trans hdirty
  · exact hkeeps.externalAddresses.symm

/-! ## Writes -/

/-- What a call that starts from a record, or from an empty one, has of completions. -/
theorem present_of_getD {scannedHeight : Option ℕ}
    (h : readCompatibleRecord network sidecar = .ok existing) {completion : Key × ℕ}
    (hmem : completion ∈ completions (existing.getD (emptyRecord network scannedHeight))) :
    completion ∈ present sidecar := by
  cases existing with
  | none => cases hmem
  | some record => exact present_of_compatible h hmem

/-- A record is written with the completions of known children. -/
theorem present_preserved {scannedHeight : Option ℕ} {addresses : List CachedExternalAddress}
    {completion : Key × ℕ} (h : readCompatibleRecord network sidecar = .ok existing)
    (hmem : completion ∈ present (writeRecord record))
    (hutxo : record.utxoCheckedHeights = preservedUtxoCheckedHeights
      (existing.getD (emptyRecord network scannedHeight)) addresses)
    (hother : record.nonExternalCheckedHeights =
      (existing.getD (emptyRecord network scannedHeight)).nonExternalCheckedHeights) :
    completion ∈ present sidecar ∧ ∀ childIndex, completion.1 = .external childIndex →
      childIndex ∈ addresses.map (·.childIndex) := by
  obtain ⟨entry, hentry, rfl⟩ | ⟨entry, hentry, rfl⟩ :=
    mem_completions (present_writeRecord hmem)
  · rw [hutxo] at hentry
    obtain ⟨hkept, hknown⟩ := List.mem_filter.1 (mem_collect hentry)
    refine ⟨present_of_getD h (external_mem_completions hkept), fun childIndex hchild => ?_⟩
    cases hchild
    exact of_decide_eq_true hknown
  · rw [hother] at hentry
    refine ⟨present_of_getD h (other_mem_completions hentry), fun childIndex hchild => ?_⟩
    cases hchild

theorem markUtxoRefreshBatchComplete_written {childIndices : List ℕ} {height nowSeconds : ℕ}
    {offset : Option ℕ} (hchildren : childIndices ≠ [])
    (hread : readCompatibleRecord network sidecar = .ok (some record)) :
    ∃ written, Receive.markUtxoRefreshBatchComplete network childIndices height offset nowSeconds
        sidecar = .ok (writeRecord written) ∧ KeepsAddresses record written ∧
      written.utxoCheckedHeights = childIndices.foldl
        (fun checked childIndex => insertKey childIndex height checked)
        (collect record.utxoCheckedHeights) ∧
      written.nonExternalCheckedHeights = record.nonExternalCheckedHeights := by
  rw [Receive.markUtxoRefreshBatchComplete, if_neg hchildren, hread]
  refine ⟨_, rfl, ?_⟩
  cases offset <;> exact ⟨⟨rfl, rfl, rfl, rfl⟩, rfl, rfl⟩

theorem markNonExternalUtxoRefreshCompleteWithSweep_written {addresses : List String}
    {height nowSeconds : ℕ} {offset : Option ℕ}
    (hread : readCompatibleRecord network sidecar = .ok (some record)) :
    ∃ written, markNonExternalUtxoRefreshCompleteWithSweep network addresses height offset
        nowSeconds sidecar = .ok (writeRecord written) ∧ KeepsAddresses record written ∧
      written.utxoCheckedHeights = record.utxoCheckedHeights ∧
      written.nonExternalCheckedHeights = addresses.foldl
        (fun checked address => insertKey address height checked)
        record.nonExternalCheckedHeights := by
  rw [markNonExternalUtxoRefreshCompleteWithSweep, hread]
  refine ⟨_, rfl, ?_⟩
  cases offset <;> exact ⟨⟨rfl, rfl, rfl, rfl⟩, rfl, rfl⟩

theorem eq_ok_some_of_matches {read : Except String (Option CacheRecord)}
    (h : (read matches .ok (some _)) = true) : ∃ record, read = .ok (some record) := by
  split at h
  · exact ⟨_, rfl⟩
  · cases h

namespace Operation

/-- The clean addresses that a write leaves were those of the database that the call was given, or
clean when the call has read them. -/
theorem run_external {addresses : List CachedExternalAddress}
    (h : operation.run network sidecar = .ok (batches, sidecar'))
    (hwrites : operation.writes network sidecar)
    (hclean : cleanAddresses network sidecar' = some addresses) :
    operation.external network sidecar = some addresses := by
  cases operation with
  | refreshAccountCacheFromWalletDb database scannedHeight =>
    simp only [run, writeCleanAddresses, bind_eq_ok, pure_eq_ok, Prod.mk.injEq] at h
    obtain ⟨_, ⟨existing, -, rfl⟩, -, rfl⟩ := h
    rw [(cleanAddresses_writeRecord hclean).1]
    rfl
  | planExternalUtxoRefresh database birthday safety recentLimit sweepLimit =>
    simp only [run, Receive.planExternalUtxoRefresh, bind_eq_ok, pure_eq_ok, Prod.mk.injEq] at h
    obtain ⟨existing, -, -, rfl⟩ := h
    rw [(cleanAddresses_writeRecord hclean).1]
    rfl
  | markUtxoRefreshBatchComplete planned batch nextStartHeight nowSeconds =>
    simp only [writes, Bool.decide_and, Bool.and_eq_true, decide_eq_true_eq] at hwrites
    obtain ⟨record, hread⟩ := eq_ok_some_of_matches hwrites.2
    obtain ⟨raw, hraw, rfl⟩ := readRecord_of_compatible hread
    obtain ⟨written, hwritten, hkeeps, -, -⟩ :=
      @markUtxoRefreshBatchComplete_written _ _ _ _ nextStartHeight nowSeconds
        batch.nextSweepOffset hwrites.1 hread
    rw [run, hwritten] at h
    cases h
    exact cleanAddresses_of_keeps hraw ((keepsAddresses_retire raw).trans hkeeps) hclean
  | markNonExternalUtxoRefreshComplete planned addresses nextStartHeight nextSweepOffset
      nowSeconds =>
    obtain ⟨record, hread⟩ := eq_ok_some_of_matches hwrites
    obtain ⟨raw, hraw, rfl⟩ := readRecord_of_compatible hread
    obtain ⟨written, hwritten, hkeeps, -, -⟩ :=
      @markNonExternalUtxoRefreshCompleteWithSweep_written _ _ _ addresses nextStartHeight
        nowSeconds nextSweepOffset hread
    rw [run, hwritten] at h
    cases h
    exact cleanAddresses_of_keeps hraw ((keepsAddresses_retire raw).trans hkeeps) hclean
  | invalidateUtxoChecks =>
    obtain ⟨raw, hraw⟩ := eq_ok_some_of_matches hwrites
    rw [run, Receive.invalidateUtxoChecks, hraw] at h
    cases h
    have hkeeps : KeepsAddresses raw raw.clearChecks := ⟨rfl, rfl, rfl, rfl⟩
    exact cleanAddresses_of_keeps hraw hkeeps hclean

/-- The completions that a write leaves were read and are carried over, or are marked by the
call. -/
theorem run_present {completion : Key × ℕ}
    (h : operation.run network sidecar = .ok (batches, sidecar'))
    (hwrites : operation.writes network sidecar) (hpresent : completion ∈ present sidecar') :
    completion ∈ present sidecar ∧ operation.carries completion.1 ∨
      ∃ mark ∈ operation.marks, (mark.key, mark.height) = completion := by
  cases operation with
  | refreshAccountCacheFromWalletDb database scannedHeight =>
    simp only [run, writeCleanAddresses, bind_eq_ok, pure_eq_ok, Prod.mk.injEq] at h
    obtain ⟨_, ⟨existing, hread, rfl⟩, -, rfl⟩ := h
    obtain ⟨hkept, hknown⟩ := present_preserved hread hpresent rfl rfl
    refine .inl ⟨hkept, ?_⟩
    cases hkey : completion.1 with
    | external childIndex => exact decide_eq_true (hknown childIndex hkey)
    | other address => rfl
  | planExternalUtxoRefresh database birthday safety recentLimit sweepLimit =>
    simp only [run, Receive.planExternalUtxoRefresh, bind_eq_ok, pure_eq_ok, Prod.mk.injEq] at h
    obtain ⟨existing, hread, -, rfl⟩ := h
    obtain ⟨hkept, hknown⟩ := present_preserved hread hpresent rfl rfl
    refine .inl ⟨hkept, ?_⟩
    cases hkey : completion.1 with
    | external childIndex => exact decide_eq_true (hknown childIndex hkey)
    | other address => rfl
  | markUtxoRefreshBatchComplete planned batch nextStartHeight nowSeconds =>
    simp only [writes, Bool.decide_and, Bool.and_eq_true, decide_eq_true_eq] at hwrites
    obtain ⟨record, hread⟩ := eq_ok_some_of_matches hwrites.2
    obtain ⟨written, hwritten, -, hutxo, hother⟩ :=
      @markUtxoRefreshBatchComplete_written _ _ _ _ nextStartHeight nowSeconds
        batch.nextSweepOffset hwrites.1 hread
    rw [run, hwritten] at h
    cases h
    obtain ⟨entry, hentry, rfl⟩ | ⟨entry, hentry, rfl⟩ :=
      mem_completions (present_writeRecord hpresent)
    · rw [hutxo] at hentry
      obtain ⟨hmarked, hheight⟩ | ⟨hkept, hunmarked⟩ := mem_foldl_insertKey hentry
      · exact .inr ⟨_, List.mem_map.2 ⟨entry.1, hmarked, rfl⟩, hheight ▸ rfl⟩
      · exact .inl ⟨present_of_compatible hread (external_mem_completions (mem_collect hkept)),
          decide_eq_true hunmarked⟩
    · rw [hother] at hentry
      exact .inl ⟨present_of_compatible hread (other_mem_completions hentry), rfl⟩
  | markNonExternalUtxoRefreshComplete planned addresses nextStartHeight nextSweepOffset
      nowSeconds =>
    obtain ⟨record, hread⟩ := eq_ok_some_of_matches hwrites
    obtain ⟨written, hwritten, -, hutxo, hother⟩ :=
      @markNonExternalUtxoRefreshCompleteWithSweep_written _ _ _ addresses nextStartHeight
        nowSeconds nextSweepOffset hread
    rw [run, hwritten] at h
    cases h
    obtain ⟨entry, hentry, rfl⟩ | ⟨entry, hentry, rfl⟩ :=
      mem_completions (present_writeRecord hpresent)
    · rw [hutxo] at hentry
      exact .inl ⟨present_of_compatible hread (external_mem_completions hentry), rfl⟩
    · rw [hother] at hentry
      obtain ⟨hmarked, hheight⟩ | ⟨hkept, hunmarked⟩ := mem_foldl_insertKey hentry
      · exact .inr ⟨_, List.mem_map.2 ⟨entry.1, hmarked, rfl⟩, hheight ▸ rfl⟩
      · exact .inl ⟨present_of_compatible hread (other_mem_completions hkept),
          decide_eq_true hunmarked⟩
  | invalidateUtxoChecks =>
    obtain ⟨raw, hraw⟩ := eq_ok_some_of_matches hwrites
    rw [run, Receive.invalidateUtxoChecks, hraw] at h
    cases h
    cases present_writeRecord hpresent

/-- An invalidation that has nothing to write finds nothing. -/
theorem present_of_not_writes (h : ¬ invalidateUtxoChecks.writes network sidecar) :
    present sidecar = [] := by
  cases sidecar with
  | missing => rfl
  | record encoded => exact absurd rfl h
  | malformed error => rfl

/-- An invalidation leaves no completion. -/
theorem present_of_invalidates
    (h : invalidateUtxoChecks.run network sidecar = .ok (batches, sidecar'))
    (hwrites : invalidateUtxoChecks.writes network sidecar) : present sidecar' = [] := by
  refine List.eq_nil_iff_forall_not_mem.2 fun completion hpresent => ?_
  obtain ⟨-, hcarries⟩ | ⟨mark, hmark, -⟩ := run_present h hwrites hpresent
  · cases hcarries
  · cases hmark

end Operation

/-- A dirty record hands out nothing, and keeps completions at most. -/
theorem markAccountDirty_spec (h : Receive.markAccountDirty sidecar = .ok sidecar') :
    cleanAddresses network sidecar' = none ∧
      ∀ completion ∈ present sidecar', completion ∈ present sidecar := by
  cases sidecar with
  | missing =>
    cases h
    exact ⟨rfl, fun completion => id⟩
  | malformed error => cases h
  | record encoded =>
    obtain rfl := Except.ok.inj h
    constructor
    · refine Option.eq_none_iff_forall_ne_some.2 fun addresses hclean => ?_
      cases (cleanAddresses_writeRecord hclean).2
    · intro completion hpresent
      exact mem_completions_retire (present_writeRecord hpresent)

/-- A text that does not decode hands out nothing. -/
theorem cleanAddresses_of_error {error : String}
    (h : Receive.markAccountDirty sidecar = .error error) :
    cleanAddresses network sidecar = none := by
  cases sidecar with
  | missing => cases h
  | record encoded => cases h
  | malformed error => rfl

/-! ## The addresses of the database -/

theorem mem_projectedExternalAddresses {database : List CachedExternalAddress}
    {entry : CachedExternalAddress} : entry ∈ projectedExternalAddresses database ↔
      entry ∈ database ∧ entry.address ≠ "" ∧
        (entry.hasReceived ∨ FirstUnused database entry) := by
  have hfirst (hmem : entry ∈ database) (haddress : entry.address ≠ "")
      (hunused : ¬ entry.hasReceived) :
      some entry.childIndex = ((database.filter fun address =>
        address.address ≠ "" ∧ ¬ address.hasReceived).map (·.childIndex)).min? ↔
        FirstUnused database entry := by
    rw [eq_comm, List.min?_eq_some_iff]
    constructor
    · intro h
      refine ⟨hunused, fun other hother hnonempty hfree => h.2 _ (List.mem_map.2 ⟨other, ?_, rfl⟩)⟩
      exact List.mem_filter.2 ⟨hother, decide_eq_true ⟨hnonempty, hfree⟩⟩
    · intro h
      refine ⟨List.mem_map.2 ⟨entry, List.mem_filter.2 ⟨hmem, ?_⟩, rfl⟩, fun index hindex => ?_⟩
      · exact decide_eq_true ⟨haddress, hunused⟩
      · obtain ⟨other, hother, rfl⟩ := List.mem_map.1 hindex
        obtain ⟨hother, hfree⟩ := List.mem_filter.1 hother
        exact h.2 other hother (of_decide_eq_true hfree).1 (of_decide_eq_true hfree).2
  rw [projectedExternalAddresses, List.mem_insertionSort, List.mem_filter, decide_eq_true_eq]
  by_cases hreceived : entry.hasReceived
  · simp [hreceived]
  · constructor
    · rintro ⟨hmem, haddress, hor⟩
      exact ⟨hmem, haddress,
        .inr ((hfirst hmem haddress hreceived).1 (hor.resolve_left hreceived))⟩
    · rintro ⟨hmem, haddress, hor⟩
      exact ⟨hmem, haddress,
        .inr ((hfirst hmem haddress hreceived).2 (hor.resolve_left hreceived))⟩

/-- The address that is handed out is unused in the clean record. -/
theorem getCleanAddress_eq_some {address : String}
    (h : getCleanAddress network sidecar = .ok (some address)) :
    ∃ addresses, cleanAddresses network sidecar = some addresses ∧
      ∃ entry ∈ addresses, entry.address = address ∧ ¬ entry.hasReceived := by
  rw [getCleanAddress, bind_eq_ok] at h
  obtain ⟨found, hclean, h⟩ := h
  cases found with
  | none => cases h
  | some record =>
    obtain ⟨entry, hentry, haddress⟩ := Option.map_eq_some_iff.1 (Except.ok.inj h)
    obtain ⟨hmem, hunused⟩ := List.mem_filter.1 (List.argmin_mem hentry)
    exact ⟨_, cleanAddresses_eq_some.2 ⟨record, hclean, rfl⟩, entry, hmem, haddress,
      of_decide_eq_true hunused⟩

/-! ## The invariant -/

variable {planned planned' : List (ℕ × TransparentUtxoRefreshBatch)} {marks marks' : List Mark}
  {invalidations : ℕ} {world world' : World} {event : Event}

/-- A completed child was part of a batch that was planned at the time that the mark says. -/
def Mark.Queried (planned : List (ℕ × TransparentUtxoRefreshBatch)) (mark : Mark) : Prop :=
  ∀ childIndex, mark.key = .external childIndex →
    ∃ batch, (mark.planned, batch) ∈ planned ∧ childIndex ∈ batch.childIndices

/-- All completions that are present complete queries planned after an invalidation. -/
def Earned (marks : List Mark) (invalidations : ℕ) (sidecar : Sidecar) : Prop :=
  ∀ completion ∈ present sidecar,
    ∃ mark ∈ marks, (mark.key, mark.height) = completion ∧ mark.planned = invalidations

theorem Earned.mono (h : Earned marks invalidations sidecar) (hmarks : marks ⊆ marks') :
    Earned marks' invalidations sidecar := fun completion hpresent => by
  obtain ⟨mark, hmark, hsame⟩ := h completion hpresent
  exact ⟨mark, hmarks hmark, hsame⟩

theorem earned_of_nil (h : present sidecar = []) : Earned marks invalidations sidecar :=
  fun completion hpresent => by
    rw [h] at hpresent
    cases hpresent

/-- A call marks what was queried, and has read what was earned. -/
structure Process.Sound (network : WalletNetwork)
    (planned : List (ℕ × TransparentUtxoRefreshBatch)) (marks : List Mark) (process : Process) :
    Prop where
  queried : ∀ mark ∈ process.operation.marks, mark.Queried planned
  writes : ∀ read ∈ process.read, process.operation.writes network read.1
  earned : ∀ read ∈ process.read, Earned marks read.2 read.1

structure Sound (network : WalletNetwork) (world : World) : Prop where
  current : ∀ addresses, cleanAddresses network world.sidecar = some addresses →
    addresses = projectedExternalAddresses world.database ∨ 0 < world.unmarked
  earned : Earned world.marks world.invalidations world.sidecar
  queried : ∀ mark ∈ world.marks, mark.Queried world.planned
  processes : ∀ process ∈ world.processes, process.Sound network world.planned world.marks

theorem Mark.Queried.mono {mark : Mark} (h : mark.Queried planned) (hplanned : planned ⊆ planned') :
    mark.Queried planned' := fun childIndex hkey => by
  obtain ⟨batch, hbatch, hchild⟩ := h childIndex hkey
  exact ⟨batch, hplanned hbatch, hchild⟩

theorem Process.Sound.mono {process : Process} (h : process.Sound network planned marks)
    (hplanned : planned ⊆ planned') (hmarks : marks ⊆ marks') :
    process.Sound network planned' marks' where
  queried mark hmark := (h.queried mark hmark).mono hplanned
  writes := h.writes
  earned read hread := (h.earned read hread).mono hmarks

/-- A call that may start marks what was queried. -/
theorem queried_of_starts (h : world.Starts operation) :
    ∀ mark ∈ operation.marks, mark.Queried world.planned := by
  intro mark hmark childIndex hkey
  cases operation with
  | markUtxoRefreshBatchComplete planned batch nextStartHeight nowSeconds =>
    obtain ⟨child, hchild, rfl⟩ := List.mem_map.1 hmark
    cases hkey
    exact ⟨batch, h, hchild⟩
  | markNonExternalUtxoRefreshComplete planned addresses nextStartHeight nextSweepOffset
      nowSeconds =>
    obtain ⟨address, -, rfl⟩ := List.mem_map.1 hmark
    cases hkey
  | refreshAccountCacheFromWalletDb => cases hmark
  | planExternalUtxoRefresh => cases hmark
  | invalidateUtxoChecks => cases hmark

theorem finish_invalidations (world : World) (i : ℕ) (operation : Operation) :
    operation = .invalidateUtxoChecks ∨
      (world.finish i operation).invalidations = world.invalidations := by
  cases operation <;> first | exact .inl rfl | exact .inr rfl

/-- A call returns without a second section. -/
theorem finish_sound {i : ℕ} (h : Sound network world)
    (hwrites : ¬ operation.writes network world.sidecar) :
    Sound network (world.finish i operation) where
  current := h.current
  earned := by
    obtain rfl | hsame := finish_invalidations world i operation
    · exact earned_of_nil (Operation.present_of_not_writes hwrites)
    · rw [hsame]
      exact h.earned
  queried := h.queried
  processes process hprocess := h.processes process (List.mem_of_mem_eraseIdx hprocess)

/-- A call reads in its first section. -/
theorem read_sound {i since : ℕ} {process : Process} (h : Sound network world)
    (hi : world.processes[i]? = some process)
    (hwrites : process.operation.writes network world.sidecar) :
    Sound network { world with
      processes := world.processes.set i
        ⟨process.operation, since, some (world.sidecar, world.invalidations)⟩ } where
  current := h.current
  earned := h.earned
  queried := h.queried
  processes := by
    refine forall_mem_set h.processes ⟨?_, ?_, ?_⟩
    · exact (h.processes process (List.mem_of_getElem? hi)).queried
    · rintro read ⟨⟩
      exact hwrites
    · rintro read ⟨⟩
      exact h.earned

/-- A call writes in its second section. -/
theorem write_sound {i since : ℕ} {snapshot : Sidecar} {epoch : ℕ} (h : Sound network world)
    (hok : Undisturbed network world (.writeRecord i))
    (hi : world.processes[i]? = some ⟨operation, since, some (snapshot, epoch)⟩)
    (hrun : operation.run network snapshot = .ok (batches, sidecar')) :
    Sound network ({ world with
      sidecar := sidecar'
      planned := world.planned ++ batches.map (epoch, ·)
      marks := world.marks ++ operation.marks }.finish i operation) := by
  obtain ⟨hcurrent, hcarried, hplanned⟩ := hok _ hi _ rfl
  have hprocess := h.processes _ (List.mem_of_getElem? hi)
  have hwrites := hprocess.writes _ rfl
  have hmarks : world.marks ⊆ world.marks ++ operation.marks := List.subset_append_left _ _
  have hbatches : world.planned ⊆ world.planned ++ batches.map (epoch, ·) :=
    List.subset_append_left _ _
  refine ⟨fun addresses hclean => ?_, ?_, fun mark hmark => ?_, fun process hmem => ?_⟩
  · exact hcurrent addresses (Operation.run_external hrun hwrites hclean)
  · obtain rfl | hsame := finish_invalidations _ i operation
    · exact earned_of_nil (Operation.present_of_invalidates hrun hwrites)
    · rw [hsame]
      intro completion hpresent
      obtain ⟨hread, hcarries⟩ | ⟨mark, hmark, heq⟩ := Operation.run_present hrun hwrites hpresent
      · obtain ⟨mark, hmark, heq, htime⟩ := hprocess.earned _ rfl completion hread
        exact ⟨mark, hmarks hmark, heq, htime.trans (hcarried completion hread hcarries)⟩
      · exact ⟨mark, List.mem_append_right _ hmark, heq, hplanned mark hmark⟩
  · obtain hmark | hmark := List.mem_append.1 hmark
    · exact (h.queried mark hmark).mono hbatches
    · exact (hprocess.queried mark hmark).mono hbatches
  · exact (h.processes process (List.mem_of_mem_eraseIdx hmem)).mono hbatches hmarks

theorem init_sound (network : WalletNetwork) (database : List CachedExternalAddress) :
    Sound network (cache network database).init where
  current addresses hclean := by cases hclean
  earned := earned_of_nil rfl
  queried := List.forall_mem_nil _
  processes := List.forall_mem_nil _

theorem step_sound (h : Sound network world) (hok : Undisturbed network world event)
    (hstep : world.step network event = some world') : Sound network world' := by
  cases event with
  | changeDatabase database =>
    obtain rfl := Option.some.inj hstep
    exact ⟨fun _ _ => .inr (Nat.succ_pos _), h.earned, h.queried, h.processes⟩
  | markAccountDirty =>
    simp only [World.step] at hstep
    split at hstep
    · rename_i sidecar hdirty
      obtain rfl := Option.some.inj hstep
      obtain ⟨hnone, hkept⟩ := @markAccountDirty_spec network _ _ hdirty
      refine ⟨fun addresses hclean => ?_, fun completion hpresent => ?_, h.queried, h.processes⟩
      · cases hnone.symm.trans hclean
      · exact h.earned completion (hkept completion hpresent)
    · rename_i error hmalformed
      obtain rfl := Option.some.inj hstep
      refine ⟨fun addresses hclean => ?_, h.earned, h.queried, h.processes⟩
      cases (cleanAddresses_of_error hmalformed).symm.trans hclean
  | start operation =>
    simp only [World.step] at hstep
    split_ifs at hstep with hstarts
    obtain rfl := Option.some.inj hstep
    refine ⟨h.current, h.earned, h.queried, fun process hprocess => ?_⟩
    obtain hprocess | hprocess := List.mem_append.1 hprocess
    · exact h.processes process hprocess
    · obtain rfl := List.mem_singleton.1 hprocess
      refine ⟨queried_of_starts hstarts, fun read hread => ?_, fun read hread => ?_⟩
      · cases hread
      · cases hread
  | readRecord i =>
    simp only [World.step] at hstep
    split at hstep
    · rename_i operation since hi
      split at hstep
      · obtain rfl := Option.some.inj hstep
        by_cases hwrites : operation.writes network world.sidecar
        · rw [if_pos hwrites]
          exact read_sound h hi hwrites
        · rw [if_neg hwrites]
          exact finish_sound h hwrites
      · obtain rfl := Option.some.inj hstep
        exact ⟨h.current, h.earned, h.queried, fun process hprocess =>
          h.processes process (List.mem_of_mem_eraseIdx hprocess)⟩
    · cases hstep
  | writeRecord i =>
    simp only [World.step] at hstep
    split at hstep
    · rename_i operation since snapshot epoch hi
      split at hstep
      · rename_i batches sidecar hrun
        obtain rfl := Option.some.inj hstep
        exact write_sound h hok hi hrun
      · cases hstep
    · cases hstep

theorem sound_of_reaches {database : List CachedExternalAddress}
    (h : (cache network database).Reaches (Undisturbed network) world) : Sound network world :=
  h.invariant (init_sound network database) fun _ _ _ hsound hok hstep =>
    step_sound hsound hok hstep

/-! ## Uncrossed writes -/

/-- The addresses that a call under way may write as clean. -/
def Process.offers (network : WalletNetwork) (process : Process) :
    Option (List CachedExternalAddress) :=
  if process.operation.takesAddresses then process.operation.external network .missing
  else process.read.bind fun read => cleanAddresses network read.1

theorem Process.offers_of_read {process : Process} {read : Sidecar × ℕ}
    (h : process.read = some read) :
    process.offers network = process.operation.external network read.1 := by
  unfold Process.offers
  cases hoperation : process.operation <;> simp [Operation.takesAddresses, Operation.external, h]

/-- The addresses that a call took are those of the database, unless it has changed, and then the
change is still to be marked or was marked since. -/
structure Process.Recent (network : WalletNetwork) (database : List CachedExternalAddress)
    (unmarked dirtied : ℕ) (process : Process) : Prop where
  since_le : process.since ≤ dirtied
  current : ∀ addresses, process.offers network = some addresses →
    addresses = projectedExternalAddresses database ∨ 0 < unmarked ∨ process.since < dirtied

def Recent (network : WalletNetwork) (world : World) : Prop :=
  ∀ process ∈ world.processes,
    process.Recent network world.database world.unmarked world.dirtied

theorem Recent.undisturbed (h : Recent network world) (hok : Uncrossed world event) :
    Undisturbed network world event := by
  cases event with
  | writeRecord i =>
    intro process hprocess read hread
    obtain ⟨hsince, hread', hplanned⟩ := hok process hprocess read hread
    have hrecent := h process (List.mem_of_getElem? hprocess)
    refine ⟨fun addresses hexternal => ?_, fun completion _ hcarries => ?_, hplanned⟩
    · rw [← Process.offers_of_read hread] at hexternal
      rcases hrecent.current addresses hexternal with hcurrent | hunmarked | hcrossed
      · exact .inl hcurrent
      · exact .inr hunmarked
      · exact .inr (hsince.resolve_left hcrossed.ne)
    · refine hread'.resolve_left fun hinvalidates => ?_
      cases hoperation : process.operation <;> rw [hoperation] at hinvalidates hcarries
      case invalidateUtxoChecks => cases hcarries
      all_goals cases hinvalidates
  | _ => trivial

/-- A call that reads clean addresses finds those of the database, or a change is still to be
marked. -/
theorem Process.Recent.read {since : ℕ} (hsound : Sections.Sound network world)
    (h : Process.Recent network world.database world.unmarked world.dirtied
      ⟨operation, since, none⟩) :
    Process.Recent network world.database world.unmarked world.dirtied
      ⟨operation, if operation.takesAddresses then since else world.dirtied,
        some (world.sidecar, world.invalidations)⟩ := by
  by_cases htakes : operation.takesAddresses
  · rw [if_pos htakes]
    refine ⟨h.since_le, fun addresses hoffers => h.current addresses ?_⟩
    rw [← hoffers, Process.offers, Process.offers, if_pos htakes, if_pos htakes]
  · rw [if_neg htakes]
    refine ⟨le_rfl, fun addresses hoffers => ?_⟩
    rw [Process.offers, if_neg htakes] at hoffers
    exact (hsound.current addresses hoffers).imp_right .inl

/-- A call that begins is given the addresses of the database, and any other step makes no call
forget that they have changed. -/
theorem Recent.step (hsound : Sound network world) (h : Recent network world)
    (hstep : world.step network event = some world') : Recent network world' := by
  cases event with
  | changeDatabase database =>
    obtain rfl := Option.some.inj hstep
    exact fun process hprocess => ⟨(h process hprocess).since_le, fun _ _ =>
      .inr (.inl (Nat.succ_pos _))⟩
  | markAccountDirty =>
    have hmarked : world'.processes = world.processes ∧ world'.dirtied = world.dirtied + 1 := by
      simp only [World.step] at hstep
      split at hstep <;> obtain rfl := Option.some.inj hstep <;> exact ⟨rfl, rfl⟩
    intro process hprocess
    rw [hmarked.1] at hprocess
    have hle := (h process hprocess).since_le
    rw [hmarked.2]
    exact ⟨Nat.le_succ_of_le hle, fun _ _ => .inr (.inr (Nat.lt_succ_of_le hle))⟩
  | start operation =>
    simp only [World.step] at hstep
    split_ifs at hstep with hstarts
    obtain rfl := Option.some.inj hstep
    intro process hprocess
    rcases List.mem_append.1 hprocess with hprocess | hprocess
    · exact h process hprocess
    · obtain rfl := List.mem_singleton.1 hprocess
      refine ⟨le_rfl, fun addresses hoffers => .inl ?_⟩
      cases operation with
      | refreshAccountCacheFromWalletDb database scannedHeight =>
        rw [← show database = world.database from hstarts]
        exact (Option.some.inj hoffers).symm
      | planExternalUtxoRefresh database birthday safety recentLimit sweepLimit =>
        rw [← show database = world.database from hstarts]
        exact (Option.some.inj hoffers).symm
      | _ => cases hoffers
  | readRecord i =>
    simp only [World.step] at hstep
    split at hstep
    · rename_i operation since hi
      have hrecent := h _ (List.mem_of_getElem? hi)
      split at hstep
      · obtain rfl := Option.some.inj hstep
        by_cases hwrites : operation.writes network world.sidecar
        · rw [if_pos hwrites]
          have hread := hrecent.read hsound
          exact forall_mem_set h hread
        · rw [if_neg hwrites]
          exact fun process hprocess => h process (List.mem_of_mem_eraseIdx hprocess)
      · obtain rfl := Option.some.inj hstep
        exact fun process hprocess => h process (List.mem_of_mem_eraseIdx hprocess)
    · cases hstep
  | writeRecord i =>
    simp only [World.step] at hstep
    split at hstep
    · split at hstep
      · obtain rfl := Option.some.inj hstep
        exact fun process hprocess => h process (List.mem_of_mem_eraseIdx hprocess)
      · cases hstep
    · cases hstep

theorem undisturbed_of_uncrossed {database : List CachedExternalAddress}
    (h : (cache network database).Reaches Uncrossed world) :
    (cache network database).Reaches (Undisturbed network) world := by
  have hboth : (cache network database).Reaches (Undisturbed network) world ∧
      Recent network world := by
    refine h.invariant (I := fun world => (cache network database).Reaches (Undisturbed network)
      world ∧ Recent network world) ⟨.init, List.forall_mem_nil _⟩ ?_
    rintro world event world' ⟨hreaches, hrecent⟩ hok hstep
    exact ⟨hreaches.step (hrecent.undisturbed hok) hstep,
      hrecent.step (sound_of_reaches hreaches) hstep⟩
  exact hboth.1

/-! ## What readers of the cache rely on -/

/-- What holds of the cache once the changes of the database are marked: a clean record has the used
addresses of the database and the first unused one, and only that one is handed out. Whether or not
they are marked, completions are of queries planned after the last invalidation. -/
structure Current (network : WalletNetwork) (world : World) : Prop where
  addresses : world.unmarked = 0 → ∀ record, cleanRecord network world.sidecar = .ok (some record) →
    ∀ entry, entry ∈ record.externalAddresses ↔ entry ∈ world.database ∧ entry.address ≠ "" ∧
      (entry.hasReceived ∨ FirstUnused world.database entry)
  handedOut : world.unmarked = 0 → ∀ address,
    getCleanAddress network world.sidecar = .ok (some address) →
    ∃ entry ∈ world.database, entry.address = address ∧ FirstUnused world.database entry
  completions : ∀ completion ∈ present world.sidecar, ∃ mark ∈ world.marks,
    (mark.key, mark.height) = completion ∧ mark.planned = world.invalidations ∧
      mark.Queried world.planned

theorem current_of_sound (hsound : Sound network world) : Current network world := by
  have hcurrent (hmarked : world.unmarked = 0) (addresses : List CachedExternalAddress)
      (hclean : cleanAddresses network world.sidecar = some addresses) :
      addresses = projectedExternalAddresses world.database :=
    (hsound.current addresses hclean).resolve_right (by omega)
  refine ⟨fun hmarked record hclean entry => ?_, fun hmarked address hhanded => ?_,
    fun completion hpresent => ?_⟩
  · rw [hcurrent hmarked _ (cleanAddresses_eq_some.2 ⟨record, hclean, rfl⟩)]
    exact mem_projectedExternalAddresses
  · obtain ⟨addresses, hclean, entry, hmem, haddress, hunused⟩ := getCleanAddress_eq_some hhanded
    rw [hcurrent hmarked addresses hclean] at hmem
    obtain ⟨hmem, -, hor⟩ := mem_projectedExternalAddresses.1 hmem
    exact ⟨entry, hmem, haddress, hor.resolve_left hunused⟩
  · obtain ⟨mark, hmark, heq, htime⟩ := hsound.earned completion hpresent
    exact ⟨mark, hmark, heq, htime, hsound.queried mark hmark⟩

/-- In runs of undisturbed writes no update of the cache is lost; and runs in which no call crosses
a mark of the account or an invalidation are such runs. -/
theorem undisturbed_current (network : WalletNetwork) (database : List CachedExternalAddress) :
    (∀ world, (cache network database).Reaches (Undisturbed network) world →
      Current network world) ∧
    ∀ world, (cache network database).Reaches Uncrossed world →
      (cache network database).Reaches (Undisturbed network) world :=
  ⟨fun _ h => current_of_sound (sound_of_reaches h), fun _ => undisturbed_of_uncrossed⟩

/-! ## Disturbed writes -/

/-- A database with one address. -/
def unreceived : List CachedExternalAddress := [⟨0, "t1first", false⟩]

/-- The database once the address has received. -/
def received : List CachedExternalAddress := [⟨0, "t1first", true⟩, ⟨1, "t1second", false⟩]

/-- The address receives, and the account is marked dirty, between the sections of a second
refresh. -/
def receiveDuringRefresh : List Event :=
  [.start (.refreshAccountCacheFromWalletDb unreceived none), .readRecord 0, .writeRecord 0,
    .start (.refreshAccountCacheFromWalletDb unreceived none), .readRecord 0,
    .changeDatabase received, .markAccountDirty, .writeRecord 0]

/-- The checks are invalidated between the sections of the mark of a batch. -/
def rewindDuringMark : List Event :=
  [.start (.planExternalUtxoRefresh unreceived 500 500 20 20), .readRecord 0, .writeRecord 0,
    .start (.markUtxoRefreshBatchComplete 0 ⟨["t1first"], [0], 0, none⟩ 1001 0), .readRecord 0,
    .start .invalidateUtxoChecks, .readRecord 1, .writeRecord 1, .writeRecord 0]

/-- All calls have returned. The address that is handed out is in use; the completion that is
present is of a query planned before the invalidation. -/
theorem withdrawn_brought_back :
    (∃ world, (cache .main unreceived).run (cache .main unreceived).init receiveDuringRefresh =
        some world ∧ world.processes = [] ∧ world.unmarked = 0 ∧
      getCleanAddress .main world.sidecar = .ok (some "t1first") ∧
      ¬ ∃ entry ∈ world.database, entry.address = "t1first" ∧ ¬ entry.hasReceived) ∧
    ∃ world, (cache .main unreceived).run (cache .main unreceived).init rewindDuringMark =
        some world ∧ world.processes = [] ∧ world.unmarked = 0 ∧
      (Key.external 0, 1001) ∈ present world.sidecar ∧
      ¬ ∃ mark ∈ world.marks, mark.planned = world.invalidations := by
  refine ⟨⟨_, (Option.some_get (by decide +kernel)).symm, ?_, ?_, ?_, ?_⟩,
    ⟨_, (Option.some_get (by decide +kernel)).symm, ?_, ?_, ?_, ?_⟩⟩
  · exact List.isEmpty_iff.1 (by decide +kernel)
  · decide +kernel
  · rfl
  · decide +kernel
  · exact List.isEmpty_iff.1 (by decide +kernel)
  · decide +kernel
  · decide +kernel
  · decide +kernel

/-- A refresh writes before the change that it has missed is marked, and a batch is planned and
marked after the checks were invalidated. -/
def overlapUndisturbed : List Event :=
  [.start (.refreshAccountCacheFromWalletDb unreceived none), .readRecord 0,
    .changeDatabase received, .writeRecord 0, .markAccountDirty,
    .start .invalidateUtxoChecks, .start (.planExternalUtxoRefresh received 500 500 20 20),
    .readRecord 0, .writeRecord 0, .readRecord 0, .writeRecord 0,
    .start (.markUtxoRefreshBatchComplete 1 ⟨["t1second", "t1first"], [1, 0], 0, none⟩ 1001 0),
    .readRecord 0, .writeRecord 0]

theorem undisturbed_current_overlap :
    ∃ world, (cache .main unreceived).runWhile Uncrossed (cache .main unreceived).init
      overlapUndisturbed = some world ∧ Current .main world := by
  let final := ((cache .main unreceived).runWhile Uncrossed (cache .main unreceived).init
    overlapUndisturbed).get (by decide +kernel)
  have hreaches : (cache .main unreceived).Reaches Uncrossed final :=
    Transition.Reaches.init.runWhile (Option.some_get _).symm
  obtain ⟨hcurrent, huncrossed⟩ := undisturbed_current .main unreceived
  exact ⟨final, (Option.some_get _).symm, hcurrent final (huncrossed final hreaches)⟩

end VizorWallet.Receive.Sections
