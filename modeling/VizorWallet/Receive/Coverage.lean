import VizorWallet.Library.Transition
import VizorWallet.Receive.Cache

/-!
# Refreshes leave no block unqueried

The sidecar of an account over plans, queries, completions, rewinds and deletions. A completion
height promises that every block below it was queried since the last invalidation or deletion. A
batch that was planned before an invalidation and is marked after it breaks the promise; nothing
else does.

## Main definitions

* `Account` — the addresses of an account and its birthday.
* `World`, `Event` — the sidecar, the planned batches and the queries; what happens to them.
* `Timely` — no batch that starts above genesis is marked across an invalidation or deletion.

## Main results

* `mem_externalUtxoRefreshBatches` — what a planned batch is.
* `World.step_keeps` — what one step keeps.
* `refreshes_cover` — completions are earned in runs of timely steps.
* `stale_batch_marked` — a batch executed across an invalidation.
-/

namespace VizorWallet.Receive

open Migration.Store (WalletNetwork)

/-! ## Completions -/

section Completions

variable (network : WalletNetwork)

/-- The record that the functions of this build work on. -/
def effectiveRecord (sidecar : Sidecar) : CacheRecord :=
  match readCompatibleRecord network sidecar with
  | .ok (some record) => record
  | _ => emptyRecord network none

/-- The completion height of an external child. -/
def externalHeight (sidecar : Sidecar) (childIndex : ℕ) : Option ℕ :=
  (collect (effectiveRecord network sidecar).utxoCheckedHeights).lookup childIndex

/-- The completion height of any other address. -/
def otherHeight (sidecar : Sidecar) (address : String) : Option ℕ :=
  (effectiveRecord network sidecar).nonExternalCheckedHeights.lookup address

end Completions

variable {network : WalletNetwork} {sidecar sidecar' : Sidecar} {record : CacheRecord}

/-- A record that this build reads and writes. -/
structure CacheRecord.Compatible (network : WalletNetwork) (record : CacheRecord) : Prop where
  version : record.version = cacheVersion
  network : record.network = networkCacheKey network
  nodup : (record.nonExternalCheckedHeights.map Prod.fst).Nodup

theorem emptyRecord_compatible (scannedHeight : Option ℕ) :
    (emptyRecord network scannedHeight).Compatible network :=
  ⟨rfl, rfl, List.nodup_nil⟩

theorem readCompatibleRecord_compatible
    (h : readCompatibleRecord network sidecar = .ok (some record)) : record.Compatible network := by
  simp only [readCompatibleRecord, bind_eq_ok] at h
  obtain ⟨found, hread, h⟩ := h
  split at h
  · cases h
  · rename_i raw
    by_cases hcompatible : raw.version = cacheVersion ∧ raw.network = networkCacheKey network
    swap
    · rw [if_neg hcompatible] at h
      cases h
    rw [if_pos hcompatible] at h
    cases h
    have hnodup : (raw.nonExternalCheckedHeights.map Prod.fst).Nodup := by
      cases sidecar with
      | missing => cases hread
      | malformed error => cases hread
      | record encoded =>
        cases hread
        exact nodup_collect _
    unfold retireLegacyCompletion
    dsimp only
    split_ifs
    · exact ⟨hcompatible.1, hcompatible.2, List.nodup_nil⟩
    · exact ⟨hcompatible.1, hcompatible.2, hnodup⟩

theorem effectiveRecord_of_read (h : readCompatibleRecord network sidecar = .ok (some record)) :
    effectiveRecord network sidecar = record := by
  rw [effectiveRecord, h]

theorem effectiveRecord_of_none (h : readCompatibleRecord network sidecar = .ok none) :
    effectiveRecord network sidecar = emptyRecord network none := by
  rw [effectiveRecord, h]

/-- What is read back of a record that was written. -/
theorem readCompatibleRecord_writeRecord (h : record.Compatible network) :
    readCompatibleRecord network (writeRecord record) = .ok (some { record with
      nonExternalCheckedHeights := collect record.nonExternalCheckedHeights
      legacyRewindEpoch := none }) := by
  simp only [readCompatibleRecord, writeRecord, readRecord, ok_bind]
  rw [if_pos ⟨h.version, h.network⟩]
  rfl

theorem externalHeight_writeRecord (h : record.Compatible network) (childIndex : ℕ) :
    externalHeight network (writeRecord record) childIndex =
      (collect record.utxoCheckedHeights).lookup childIndex := by
  rw [externalHeight, effectiveRecord_of_read (readCompatibleRecord_writeRecord h)]

theorem otherHeight_writeRecord (h : record.Compatible network) (address : String) :
    otherHeight network (writeRecord record) address =
      record.nonExternalCheckedHeights.lookup address := by
  rw [otherHeight, effectiveRecord_of_read (readCompatibleRecord_writeRecord h)]
  exact lookup_collect_of_nodup h.nodup address

/-- The record that planning and cleaning start from has the completions that are stored. -/
theorem getD_emptyRecord {existing : Option CacheRecord} (scannedHeight : Option ℕ)
    (h : readCompatibleRecord network sidecar = .ok existing) :
    (existing.getD (emptyRecord network scannedHeight)).Compatible network ∧
      (existing.getD (emptyRecord network scannedHeight)).utxoCheckedHeights =
        (effectiveRecord network sidecar).utxoCheckedHeights ∧
      (existing.getD (emptyRecord network scannedHeight)).nonExternalCheckedHeights =
        (effectiveRecord network sidecar).nonExternalCheckedHeights := by
  cases existing with
  | none =>
    rw [effectiveRecord_of_none h]
    exact ⟨emptyRecord_compatible _, rfl, rfl⟩
  | some record =>
    rw [effectiveRecord_of_read h]
    exact ⟨readCompatibleRecord_compatible h, rfl, rfl⟩

/-! ## What the operations do to completions -/

/-- Completions of some children and addresses are set, others are kept or dropped. -/
structure Completes (network : WalletNetwork) (children : List ℕ) (addresses : List String)
    (height : ℕ) (before after : Sidecar) : Prop where
  external : ∀ childIndex stored, externalHeight network after childIndex = some stored →
    childIndex ∈ children ∧ stored = height ∨ externalHeight network before childIndex = some stored
  other : ∀ address stored, otherHeight network after address = some stored →
    address ∈ addresses ∧ stored = height ∨ otherHeight network before address = some stored

theorem lookup_preserved (record : CacheRecord) (addresses : List CachedExternalAddress)
    (childIndex : ℕ) :
    (collect (preservedUtxoCheckedHeights record addresses)).lookup childIndex =
      if childIndex ∈ addresses.map (·.childIndex) then
        (collect record.utxoCheckedHeights).lookup childIndex else none := by
  rw [preservedUtxoCheckedHeights, lookup_collect_of_nodup (nodup_collect _), lookup_collect,
    lookup_collect, ← List.filter_reverse,
    lookup_filter_key (fun childIndex => childIndex ∈ addresses.map (·.childIndex))]
  simp only [decide_eq_true_eq]

theorem lookup_foldl_insertKey {κ : Type*} [DecidableEq κ] (keys : List κ) (height : ℕ)
    (checked : List (κ × ℕ)) (key : κ) :
    (keys.foldl (fun checked key => insertKey key height checked) checked).lookup key =
      if key ∈ keys then some height else checked.lookup key := by
  induction keys generalizing checked with
  | nil => rfl
  | cons first rest ih =>
    rw [List.foldl_cons, ih, lookup_insertKey]
    grind

theorem nodup_foldl_insertKey {κ : Type*} [DecidableEq κ] (keys : List κ) (height : ℕ)
    {checked : List (κ × ℕ)} (h : (checked.map Prod.fst).Nodup) :
    ((keys.foldl (fun checked key => insertKey key height checked) checked).map
      Prod.fst).Nodup := by
  induction keys generalizing checked with
  | nil => exact h
  | cons first rest ih => exact ih (nodup_insertKey h)

/-- A record is written with completions that are set or were stored. -/
theorem writeRecord_completes {children : List ℕ} {addresses : List String} {height : ℕ}
    (hcompatible : record.Compatible network)
    (hexternal : ∀ childIndex stored,
      (collect record.utxoCheckedHeights).lookup childIndex = some stored →
      childIndex ∈ children ∧ stored = height ∨
        externalHeight network sidecar childIndex = some stored)
    (hother : ∀ address stored, record.nonExternalCheckedHeights.lookup address = some stored →
      address ∈ addresses ∧ stored = height ∨ otherHeight network sidecar address = some stored) :
    Completes network children addresses height sidecar (writeRecord record) where
  external childIndex stored hstored := by
    rw [externalHeight_writeRecord hcompatible] at hstored
    exact hexternal childIndex stored hstored
  other address stored hstored := by
    rw [otherHeight_writeRecord hcompatible] at hstored
    exact hother address stored hstored

theorem Completes.refl (children : List ℕ) (addresses : List String) (height : ℕ)
    (sidecar : Sidecar) : Completes network children addresses height sidecar sidecar :=
  ⟨fun _ _ => .inr, fun _ _ => .inr⟩

theorem planExternalUtxoRefresh_heights {addresses : List CachedExternalAddress}
    {birthday safety recentLimit sweepLimit : ℕ} {batches : List TransparentUtxoRefreshBatch}
    (h : planExternalUtxoRefresh network addresses birthday safety recentLimit sweepLimit sidecar =
      .ok (batches, sidecar')) (height : ℕ) :
    Completes network [] [] height sidecar sidecar' ∧
      ∃ offset, batches = externalUtxoRefreshBatches (allExternalAddresses addresses)
        (preservedUtxoCheckedHeights (effectiveRecord network sidecar)
          (allExternalAddresses addresses)) offset birthday safety recentLimit sweepLimit := by
  simp only [planExternalUtxoRefresh, bind_eq_ok, pure_eq_ok, Prod.mk.injEq] at h
  obtain ⟨existing, hread, rfl, rfl⟩ := h
  obtain ⟨hcompatible, hutxo, hother⟩ := getD_emptyRecord none hread
  refine ⟨writeRecord_completes ⟨rfl, rfl, hcompatible.nodup⟩ (fun childIndex stored hstored => ?_)
    fun address stored hstored => ?_,
    (existing.getD (emptyRecord network none)).utxoSweepNextOffset, ?_⟩
  · dsimp only at hstored
    rw [lookup_preserved, hutxo] at hstored
    exact .inr ((Option.ite_none_right_eq_some.1 hstored).2)
  · rw [otherHeight, ← hother]
    exact .inr hstored
  · simp only [preservedUtxoCheckedHeights, hutxo]

theorem markUtxoRefreshBatchComplete_completes {children : List ℕ} {height nowSeconds : ℕ}
    {offset : Option ℕ}
    (h : markUtxoRefreshBatchComplete network children height offset nowSeconds sidecar =
      .ok sidecar') : Completes network children [] height sidecar sidecar' := by
  unfold markUtxoRefreshBatchComplete at h
  split_ifs at h
  · cases h
    exact .refl _ _ _ _
  · rw [bind_eq_ok] at h
    obtain ⟨existing, hread, h⟩ := h
    split at h
    · cases h
      exact .refl _ _ _ _
    · rename_i record
      have hcompatible := readCompatibleRecord_compatible hread
      obtain rfl := pure_eq_ok.1 h
      have hexternal : ∀ childIndex stored,
          (collect (children.foldl (fun checked childIndex => insertKey childIndex height checked)
            (collect record.utxoCheckedHeights))).lookup childIndex = some stored →
          childIndex ∈ children ∧ stored = height ∨
            externalHeight network sidecar childIndex = some stored := by
        intro childIndex stored hstored
        rw [lookup_collect_of_nodup (nodup_foldl_insertKey children height (nodup_collect _)),
          lookup_foldl_insertKey] at hstored
        rw [externalHeight, effectiveRecord_of_read hread]
        split_ifs at hstored with hmem
        · exact .inl ⟨hmem, (Option.some.inj hstored).symm⟩
        · exact .inr hstored
      have hother : ∀ address stored,
          record.nonExternalCheckedHeights.lookup address = some stored →
          address ∈ [] ∧ stored = height ∨ otherHeight network sidecar address = some stored := by
        intro address stored hstored
        rw [otherHeight, effectiveRecord_of_read hread]
        exact .inr hstored
      split <;> exact writeRecord_completes
        ⟨hcompatible.version, hcompatible.network, hcompatible.nodup⟩ hexternal hother

theorem markNonExternalUtxoRefreshCompleteWithSweep_completes {addresses : List String}
    {height nowSeconds : ℕ} {offset : Option ℕ}
    (h : markNonExternalUtxoRefreshCompleteWithSweep network addresses height offset nowSeconds
      sidecar = .ok sidecar') : Completes network [] addresses height sidecar sidecar' := by
  rw [markNonExternalUtxoRefreshCompleteWithSweep, bind_eq_ok] at h
  obtain ⟨existing, hread, h⟩ := h
  split at h
  · cases h
    exact .refl _ _ _ _
  · rename_i record
    have hcompatible := readCompatibleRecord_compatible hread
    obtain rfl := pure_eq_ok.1 h
    have hexternal : ∀ childIndex stored,
        (collect record.utxoCheckedHeights).lookup childIndex = some stored →
        childIndex ∈ [] ∧ stored = height ∨
          externalHeight network sidecar childIndex = some stored := by
      intro childIndex stored hstored
      rw [externalHeight, effectiveRecord_of_read hread]
      exact .inr hstored
    have hother : ∀ address stored,
        (addresses.foldl (fun checked address => insertKey address height checked)
          record.nonExternalCheckedHeights).lookup address = some stored →
        address ∈ addresses ∧ stored = height ∨
          otherHeight network sidecar address = some stored := by
      intro address stored hstored
      rw [lookup_foldl_insertKey] at hstored
      rw [otherHeight, effectiveRecord_of_read hread]
      split_ifs at hstored with hmem
      · exact .inl ⟨hmem, (Option.some.inj hstored).symm⟩
      · exact .inr hstored
    have hnodup := nodup_foldl_insertKey addresses height hcompatible.nodup
    split <;> exact writeRecord_completes
      ⟨hcompatible.version, hcompatible.network, hnodup⟩ hexternal hother

theorem writeCleanAddresses_completes {addresses : List CachedExternalAddress}
    {scannedHeight : Option ℕ}
    (h : writeCleanAddresses network addresses scannedHeight sidecar = .ok sidecar') (height : ℕ) :
    Completes network [] [] height sidecar sidecar' := by
  simp only [writeCleanAddresses, bind_eq_ok, pure_eq_ok] at h
  obtain ⟨existing, hread, rfl⟩ := h
  obtain ⟨hcompatible, hutxo, hother⟩ := getD_emptyRecord scannedHeight hread
  refine writeRecord_completes ⟨hcompatible.version, hcompatible.network, hcompatible.nodup⟩
    (fun childIndex stored hstored => ?_) fun address stored hstored => ?_
  · dsimp only at hstored
    rw [lookup_preserved, hutxo] at hstored
    exact .inr ((Option.ite_none_right_eq_some.1 hstored).2)
  · rw [otherHeight, ← hother]
    exact .inr hstored

/-- A record of another version or network stays unread. -/
theorem readCompatibleRecord_of_incompatible {encoded : EncodedRecord}
    (h : ¬ (encoded.version = cacheVersion ∧ encoded.network = networkCacheKey network)) :
    readCompatibleRecord network (.record encoded) = .ok none := by
  simp only [readCompatibleRecord, readRecord, ok_bind]
  exact if_neg h

/-- Nothing is complete for a record that is not read. -/
theorem completes_of_none (h : readCompatibleRecord network sidecar' = .ok none) (height : ℕ) :
    Completes network [] [] height sidecar sidecar' where
  external childIndex stored hstored := by
    rw [externalHeight, effectiveRecord_of_none h] at hstored
    cases hstored
  other address stored hstored := by
    rw [otherHeight, effectiveRecord_of_none h] at hstored
    cases hstored

theorem markAccountDirty_completes (h : markAccountDirty sidecar = .ok sidecar') (height : ℕ) :
    Completes network [] [] height sidecar sidecar' := by
  cases sidecar with
  | missing =>
    cases h
    exact .refl _ _ _ _
  | malformed error => cases h
  | record encoded =>
    obtain rfl := Except.ok.inj h
    by_cases hcompatible :
      encoded.version = cacheVersion ∧ encoded.network = networkCacheKey network
    · have hread : readCompatibleRecord network (.record encoded) =
          .ok (some (retireLegacyCompletion encoded.decode)) := by
        simp only [readCompatibleRecord, readRecord, ok_bind]
        exact if_pos hcompatible
      have hrecord := readCompatibleRecord_compatible hread
      refine writeRecord_completes ⟨hrecord.version, hrecord.network, hrecord.nodup⟩
        (fun childIndex stored hstored => ?_) fun address stored hstored => ?_
      · rw [externalHeight, effectiveRecord_of_read hread]
        exact .inr hstored
      · rw [otherHeight, effectiveRecord_of_read hread]
        exact .inr hstored
    · refine completes_of_none (readCompatibleRecord_of_incompatible ?_) height
      have hkept : (retireLegacyCompletion encoded.decode).version = encoded.version ∧
          (retireLegacyCompletion encoded.decode).network = encoded.network := by
        unfold retireLegacyCompletion
        dsimp only
        split_ifs <;> exact ⟨rfl, rfl⟩
      simpa only [CacheRecord.encode, hkept.1, hkept.2] using hcompatible

theorem getD_min?_le {l : List ℕ} {n : ℕ} (h : n ∈ l) : l.min?.getD 0 ≤ n := by
  cases hmin : l.min? with
  | none => exact Nat.zero_le n
  | some least => exact (List.min?_eq_some_iff.1 hmin).2 n h

theorem planNonExternalUtxoRefresh_heights {addresses internalAddresses : List String}
    {birthday safety tip : ℕ} {groups : List (List String × ℕ)}
    (h : planNonExternalUtxoRefresh network addresses birthday safety internalAddresses tip
      sidecar = .ok (groups, sidecar')) (height : ℕ) :
    Completes network [] [] height sidecar sidecar' ∧
      ∀ group ∈ groups, ∀ address ∈ group.1, address ∈ addresses ∧
        group.2 ≤ startHeightOf birthday safety (otherHeight network sidecar address) := by
  simp only [planNonExternalUtxoRefresh, bind_eq_ok, pure_eq_ok, Prod.mk.injEq] at h
  obtain ⟨existing, hread, rfl, rfl⟩ := h
  obtain ⟨hcompatible, hutxo, hother⟩ := getD_emptyRecord none hread
  set record := existing.getD (emptyRecord network none)
  set kept := record.nonExternalCheckedHeights.filter fun entry => entry.1 ∈ addresses with hkept
  have hlookup (address : String) : kept.lookup address =
      if address ∈ addresses then otherHeight network sidecar address else none := by
    have hfilter := lookup_filter_key (fun address => decide (address ∈ addresses))
      record.nonExternalCheckedHeights address
    rw [hkept, hfilter, otherHeight, ← hother]
    simp only [decide_eq_true_eq]
  constructor
  · split_ifs
    · refine writeRecord_completes ⟨hcompatible.version, hcompatible.network,
        hcompatible.nodup.sublist (List.filter_sublist.map _)⟩ (fun childIndex stored hstored => ?_)
        fun address stored hstored => ?_
      · rw [externalHeight, ← hutxo]
        exact .inr hstored
      · dsimp only at hstored
        rw [hlookup] at hstored
        exact .inr ((Option.ite_none_right_eq_some.1 hstored).2)
    · exact .refl _ _ _ _
  · intro group hgroup address haddress
    obtain ⟨members, hmembers, rfl⟩ := List.mem_map.1 hgroup
    have hmem : address ∈ addresses := by
      have hgroups := (List.mem_filter.1 hmembers).1
      simp only [List.mem_cons, List.not_mem_nil, or_false] at hgroups
      obtain rfl | rfl := hgroups
      · exact (List.mem_filter.1 ((List.mem_insertionSort _).1 haddress)).1
      · exact (List.mem_filter.1 ((List.mem_insertionSort _).1 haddress)).1
    refine ⟨hmem, getD_min?_le (List.mem_map.2 ⟨address, haddress, ?_⟩)⟩
    rw [hlookup, if_pos hmem]

theorem invalidateUtxoChecks_heights (h : invalidateUtxoChecks sidecar = .ok sidecar') :
    (∀ childIndex, externalHeight network sidecar' childIndex = none) ∧
      ∀ address, otherHeight network sidecar' address = none := by
  rw [invalidateUtxoChecks, bind_eq_ok] at h
  obtain ⟨existing, hread, h⟩ := h
  have hempty : (effectiveRecord network sidecar').utxoCheckedHeights = [] ∧
      (effectiveRecord network sidecar').nonExternalCheckedHeights = [] := by
    split at h
    · cases h
      have hnone : readCompatibleRecord network sidecar = .ok none := by
        rw [readCompatibleRecord, hread]
        rfl
      rw [effectiveRecord_of_none hnone]
      exact ⟨rfl, rfl⟩
    · rename_i record
      cases h
      by_cases hcompatible : record.version = cacheVersion ∧
          record.network = networkCacheKey network
      · have hcleared : record.clearChecks.Compatible network :=
          ⟨hcompatible.1, hcompatible.2, List.nodup_nil⟩
        rw [effectiveRecord_of_read (readCompatibleRecord_writeRecord hcleared)]
        exact ⟨rfl, rfl⟩
      · have hnone : readCompatibleRecord network (writeRecord record.clearChecks) = .ok none :=
          readCompatibleRecord_of_incompatible hcompatible
        rw [effectiveRecord_of_none hnone]
        exact ⟨rfl, rfl⟩
  refine ⟨fun childIndex => ?_, fun address => ?_⟩
  · rw [externalHeight, hempty.1]
    rfl
  · rw [otherHeight, hempty.2]
    rfl

/-! ## Batches -/

/-- Some addresses of a list, and a start that none of them has to wait for. -/
structure BatchOf (addresses : List CachedExternalAddress) (height : ℕ → Option ℕ)
    (birthday safety : ℕ) (batch : TransparentUtxoRefreshBatch) : Prop where
  chosen : ∃ chosen : List CachedExternalAddress, (∀ address ∈ chosen, address ∈ addresses) ∧
    batch.addresses = chosen.map (·.address) ∧ batch.childIndices = chosen.map (·.childIndex)
  start_le : ∀ childIndex ∈ batch.childIndices,
    batch.startHeight ≤ startHeightOf birthday safety (height childIndex)

theorem mem_setLastOffset {offset : Option ℕ} {batches : List TransparentUtxoRefreshBatch}
    {batch : TransparentUtxoRefreshBatch} (h : batch ∈ setLastOffset offset batches) :
    ∃ planned ∈ batches, batch = planned ∨ batch = { planned with nextSweepOffset := offset } := by
  fun_induction setLastOffset offset batches with
  | case1 => cases h
  | case2 last => exact ⟨last, List.mem_cons_self, .inr (List.mem_singleton.1 h)⟩
  | case3 first rest hrest ih =>
    obtain rfl | hmem := List.mem_cons.1 h
    · exact ⟨batch, List.mem_cons_self, .inl rfl⟩
    · obtain ⟨planned, hplanned, hsame⟩ := ih hmem
      exact ⟨planned, List.mem_cons_of_mem _ hplanned, hsame⟩

theorem mem_splitRefreshBatches {addresses : List CachedExternalAddress}
    {checked : List (ℕ × ℕ)} {birthday safety : ℕ} {offset : Option ℕ}
    {batch : TransparentUtxoRefreshBatch}
    (h : batch ∈ splitRefreshBatches addresses checked birthday safety offset) :
    BatchOf addresses (checked.lookup ·) birthday safety batch := by
  simp only [splitRefreshBatches, List.partition_eq_filter_filter] at h
  obtain ⟨planned, hplanned, hsame⟩ := mem_setLastOffset h
  obtain ⟨chosen, hchosen, hbatch⟩ := List.mem_filterMap.1 hplanned
  have hsubset : ∀ address ∈ chosen, address ∈ addresses := by
    simp only [List.mem_cons, List.not_mem_nil, or_false] at hchosen
    obtain rfl | rfl := hchosen <;> exact fun address haddress => (List.mem_filter.1 haddress).1
  have hplannedBatch : BatchOf addresses (checked.lookup ·) birthday safety planned := by
    unfold refreshBatch at hbatch
    split_ifs at hbatch
    obtain rfl := Option.some.inj hbatch
    refine ⟨⟨chosen, hsubset, rfl, rfl⟩, fun childIndex hchild => ?_⟩
    obtain ⟨address, haddress, rfl⟩ := List.mem_map.1 hchild
    exact getD_min?_le (List.mem_map.2 ⟨address, haddress, rfl⟩)
  obtain rfl | rfl := hsame
  · exact hplannedBatch
  · exact ⟨hplannedBatch.chosen, hplannedBatch.start_le⟩

theorem BatchOf.mono {addresses more : List CachedExternalAddress} {height : ℕ → Option ℕ}
    {birthday safety : ℕ} {batch : TransparentUtxoRefreshBatch}
    (h : BatchOf addresses height birthday safety batch)
    (hsubset : ∀ address ∈ addresses, address ∈ more) :
    BatchOf more height birthday safety batch := by
  obtain ⟨⟨chosen, hchosen, haddresses, hchildren⟩, hstart⟩ := h
  exact ⟨⟨chosen, fun address haddress => hsubset address (hchosen address haddress), haddresses,
    hchildren⟩, hstart⟩

theorem mem_externalUtxoRefreshBatches {addresses : List CachedExternalAddress}
    {checkedHeights : List (ℕ × ℕ)} {offset birthday safety recentLimit sweepLimit : ℕ}
    {batch : TransparentUtxoRefreshBatch}
    (h : batch ∈ externalUtxoRefreshBatches addresses checkedHeights offset birthday safety
      recentLimit sweepLimit) :
    BatchOf addresses ((collect checkedHeights).lookup ·) birthday safety batch := by
  unfold externalUtxoRefreshBatches at h
  set eligible := addresses.insertionSort fun a b => b.childIndex ≤ a.childIndex
  have heligible : ∀ address ∈ eligible, address ∈ addresses :=
    fun address haddress => (List.mem_insertionSort _).1 haddress
  have hrecent : ∀ address ∈ eligible.take recentLimit, address ∈ addresses :=
    fun address haddress => heligible address (List.mem_of_mem_take haddress)
  dsimp only at h
  split_ifs at h
  · obtain h | h := List.mem_append.1 h
    · exact (mem_splitRefreshBatches h).mono hrecent
    · refine (mem_splitRefreshBatches h).mono fun address haddress => ?_
      obtain ⟨i, -, hget⟩ := List.mem_filterMap.1 haddress
      exact heligible address (List.mem_of_mem_drop (List.mem_of_getElem? hget))
  · exact (mem_splitRefreshBatches h).mono hrecent

/-! ## The world -/

/-- The account: its birthday, and its addresses by child index. -/
structure Account where
  network : WalletNetwork
  birthday : ℕ
  external : ℕ → String
  internal : ℕ → String

/-- The call that completes a batch. -/
inductive Scope
  | external
  | internalSweep
  | nonExternal
  deriving DecidableEq

/-- A batch, with the number of invalidations and deletions before it was planned. -/
structure Planned where
  scope : Scope
  batch : TransparentUtxoRefreshBatch
  resets : ℕ
  deriving DecidableEq

/-- A query of an address that returned all outputs of some blocks. -/
structure Query where
  address : String
  start : ℕ
  tip : ℕ

/-- The sidecar, the batches planned so far, and the queries since the last reset. -/
structure World where
  sidecar : Sidecar
  planned : List Planned
  queries : List Query
  resets : ℕ

inductive Event
  | planExternal (addresses : List CachedExternalAddress)
      (birthday safety recentLimit sweepLimit : ℕ)
  | planInternal (addresses : List (ℕ × String)) (recentLimit sweepLimit : ℕ)
  | planNonExternal (addresses : List String) (birthday safety : ℕ)
      (internalAddresses : List String) (tip : ℕ)
  /-- A batch is queried up to a tip and then, unless the pass ends before, marked. -/
  | execute (planned : Planned) (tip nowSeconds : ℕ) (marked : Bool)
  | writeClean (addresses : List CachedExternalAddress) (scannedHeight : Option ℕ)
  | markDirty
  | invalidate
  | delete
  /-- The sidecar comes from an older build, which has made some queries. -/
  | older (sidecar : Sidecar) (queries : List Query)

/-- A batch is complete up to and including a tip. -/
def Planned.mark (network : WalletNetwork) (planned : Planned) (tip nowSeconds : ℕ)
    (sidecar : Sidecar) : Except String Sidecar :=
  match planned.scope with
  | .external => markUtxoRefreshBatchComplete network planned.batch.childIndices (tip + 1)
      planned.batch.nextSweepOffset nowSeconds sidecar
  | .internalSweep => markNonExternalUtxoRefreshCompleteWithSweep network planned.batch.addresses
      (tip + 1) planned.batch.nextSweepOffset nowSeconds sidecar
  | .nonExternal => markNonExternalUtxoRefreshComplete network planned.batch.addresses (tip + 1)
      nowSeconds sidecar

namespace World

/-- The batches of a plan and the sidecar after it; a plan that fails has no effect. -/
def plan (account : Account) (world : World) : Event → List Planned × Sidecar
  | .planExternal addresses birthday safety recentLimit sweepLimit =>
    match planExternalUtxoRefresh account.network addresses birthday safety recentLimit sweepLimit
      world.sidecar with
    | .ok (batches, sidecar) => (batches.map (⟨.external, ·, world.resets⟩), sidecar)
    | .error _ => ([], world.sidecar)
  | .planInternal addresses recentLimit sweepLimit =>
    match planInternalUtxoRefresh account.network addresses recentLimit sweepLimit
      world.sidecar with
    | .ok batches => (batches.map (⟨.internalSweep, ·, world.resets⟩), world.sidecar)
    | .error _ => ([], world.sidecar)
  | .planNonExternal addresses birthday safety internalAddresses tip =>
    match planNonExternalUtxoRefresh account.network addresses birthday safety internalAddresses tip
      world.sidecar with
    | .ok (groups, sidecar) =>
      (groups.map fun group => ⟨.nonExternal, ⟨group.1, [], group.2, none⟩, world.resets⟩, sidecar)
    | .error _ => ([], world.sidecar)
  | _ => ([], world.sidecar)

/-- A write; one that fails has no effect. -/
def write (world : World) (result : Except String Sidecar) : World :=
  match result with
  | .ok sidecar => { world with sidecar }
  | .error _ => world

/-- Completions do not survive, and earlier queries do not count any more. -/
def reset (world : World) (sidecar : Sidecar) (queries : List Query) : World :=
  { world with sidecar, queries, resets := world.resets + 1 }

def step (account : Account) (world : World) (event : Event) : Option World :=
  match event with
  | .execute planned tip nowSeconds marked =>
    if planned ∈ world.planned then
      let queried := { world with queries := world.queries ++ planned.batch.addresses.map fun
        address => ⟨address, planned.batch.startHeight, tip⟩ }
      some (if marked then
        queried.write (planned.mark account.network tip nowSeconds world.sidecar) else queried)
    else none
  | .writeClean addresses scannedHeight =>
    some (world.write (writeCleanAddresses account.network addresses scannedHeight world.sidecar))
  | .markDirty => some (world.write (markAccountDirty world.sidecar))
  | .invalidate =>
    match invalidateUtxoChecks world.sidecar with
    | .ok sidecar => some (world.reset sidecar [])
    | .error _ => some world
  | .delete => some (world.reset .missing [])
  | .older sidecar queries => some (world.reset sidecar queries)
  | plan =>
    let (planned, sidecar) := world.plan account plan
    some { world with sidecar, planned := world.planned ++ planned }

end World

/-- The life of the sidecar of an account. -/
def refreshes (account : Account) : Transition World Event where
  init := ⟨.missing, [], [], 0⟩
  step := World.step account

/-! ## Promises -/

/-- Every block below a height was queried. -/
def Covered (queries : List Query) (address : String) (height : ℕ) : Prop :=
  ∀ block < height, ∃ query ∈ queries, query.address = address ∧ query.start ≤ block ∧
    block ≤ query.tip

/-- An address has a stored completion. -/
inductive Completed (account : Account) (sidecar : Sidecar) : String → ℕ → Prop
  | external {childIndex height : ℕ}
      (h : externalHeight account.network sidecar childIndex = some height) :
      Completed account sidecar (account.external childIndex) height
  | other {address : String} {height : ℕ}
      (h : otherHeight account.network sidecar address = some height) :
      Completed account sidecar address height

/-- What the callers promise: addresses belong to their child index, plans use the birthday of the
account, tips are above it, and an older build has earned the completions that it leaves. -/
def Genuine (account : Account) : Event → Prop
  | .planExternal addresses birthday _ _ _ =>
    (∀ address ∈ addresses, address.address = account.external address.childIndex) ∧
      birthday ≤ account.birthday
  | .planInternal addresses _ _ => ∀ address ∈ addresses, address.2 = account.internal address.1
  | .planNonExternal _ birthday _ _ _ => birthday ≤ account.birthday
  | .execute _ tip _ _ => account.birthday ≤ tip
  | .older sidecar queries => ∀ address height, Completed account sidecar address height →
    account.birthday ≤ height ∧ Covered queries address height
  | _ => True

/-- This build reads a record of the account. -/
def recorded (network : WalletNetwork) (sidecar : Sidecar) : Bool :=
  match readCompatibleRecord network sidecar with
  | .ok (some _) => true
  | _ => false

/-- A batch that starts above genesis is marked in a record before the next invalidation or
deletion, or not at all. -/
def Timely (account : Account) (world : World) : Event → Prop
  | .execute planned _ _ marked => marked → recorded account.network world.sidecar →
    planned.batch.startHeight = 0 ∨ planned.resets = world.resets
  | _ => True

instance (account : Account) (world : World) : DecidablePred (Timely account world) :=
  fun event => by cases event <;> unfold Timely <;> infer_instance

/-- The addresses that the mark of a batch completes. -/
def Planned.completes (account : Account) (planned : Planned) : List String :=
  match planned.scope with
  | .external => planned.batch.childIndices.map account.external
  | _ => planned.batch.addresses

/-- The stored completions that the mark of a batch replaces. -/
def Planned.stored (account : Account) (sidecar : Sidecar) (planned : Planned) : List (Option ℕ) :=
  match planned.scope with
  | .external => planned.batch.childIndices.map (externalHeight account.network sidecar)
  | _ => planned.batch.addresses.map (otherHeight account.network sidecar)

variable {account : Account} {world world' : World} {event : Event}

/-! ## Plans -/

/-- A planned batch starts at or below the completions that its mark replaces, and queries every
address that its mark completes. -/
structure PlanOf (account : Account) (world : World) (planned : Planned) : Prop where
  resets : planned.resets = world.resets
  start_le : ∃ birthday safety, birthday ≤ account.birthday ∧
    ∀ stored ∈ planned.stored account world.sidecar,
      planned.batch.startHeight ≤ startHeightOf birthday safety stored
  completes : ∀ address ∈ planned.completes account, address ∈ planned.batch.addresses
  queries : ∀ address ∈ planned.batch.addresses,
    ∃ stored ∈ planned.stored account world.sidecar,
      ∀ height, stored = some height → Completed account world.sidecar address height

theorem mem_allExternalAddresses {addresses : List CachedExternalAddress}
    {address : CachedExternalAddress} (h : address ∈ allExternalAddresses addresses) :
    address ∈ addresses :=
  (List.mem_filter.1 ((List.mem_insertionSort _).1 h)).1

/-- The completions that the internal planner keys by child index. -/
theorem lookup_internal {addresses : List (ℕ × String)} {heights : List (String × ℕ)}
    {internal : ℕ → String} (haddresses : ∀ address ∈ addresses, address.2 = internal address.1)
    {index : ℕ} {address : String} (hmem : (index, address) ∈ addresses) :
    (collect (addresses.filterMap fun (index, address) =>
      (heights.lookup address).map fun height => (index, height))).lookup index =
        heights.lookup address := by
  have hpair : ∀ height, (index, height) ∈ (addresses.filterMap fun (index, address) =>
      (heights.lookup address).map fun height => (index, height)) →
      heights.lookup address = some height := by
    intro height hheight
    obtain ⟨⟨index', address'⟩, hother, hmap⟩ := List.mem_filterMap.1 hheight
    obtain ⟨height', hlookup, hsame⟩ := Option.map_eq_some_iff.1 hmap
    cases hsame
    have haddress : address' = address := (haddresses _ hother).trans (haddresses _ hmem).symm
    exact haddress ▸ hlookup
  rw [lookup_collect]
  cases hfound : List.lookup index _ with
  | some height =>
    exact (hpair height (List.mem_reverse.1 (mem_of_lookup_eq_some hfound))).symm
  | none =>
    cases hlookup : heights.lookup address with
    | none => rfl
    | some height =>
      have hkeyed : (index, height) ∈ addresses.filterMap fun (index, address) =>
          (heights.lookup address).map fun height => (index, height) :=
        List.mem_filterMap.2 ⟨(index, address), hmem, Option.map_eq_some_iff.2 ⟨_, hlookup, rfl⟩⟩
      simpa using List.lookup_eq_none_iff.1 hfound _ (List.mem_reverse.2 hkeyed)

theorem planInternalUtxoRefresh_batches {addresses : List (ℕ × String)}
    {recentLimit sweepLimit : ℕ} {batches : List TransparentUtxoRefreshBatch}
    (h : planInternalUtxoRefresh network addresses recentLimit sweepLimit sidecar = .ok batches) :
    ∃ offset, batches = externalUtxoRefreshBatches
      (addresses.map fun (index, address) => ⟨index, address, false⟩)
      (addresses.filterMap fun (index, address) =>
        ((effectiveRecord network sidecar).nonExternalCheckedHeights.lookup address).map
          fun height => (index, height)) offset 0 0 recentLimit sweepLimit := by
  simp only [planInternalUtxoRefresh, bind_eq_ok, pure_eq_ok] at h
  obtain ⟨existing, hread, rfl⟩ := h
  rw [← (getD_emptyRecord none hread).2.2]
  exact ⟨_, rfl⟩

theorem plan_sound (hgenuine : Genuine account event) {planned : Planned}
    (h : planned ∈ (world.plan account event).1) : PlanOf account world planned := by
  unfold World.plan at h
  split at h
  · rename_i addresses birthday safety recentLimit sweepLimit
    split at h
    · rename_i batches sidecar hplan
      obtain ⟨batch, hbatch, rfl⟩ := List.mem_map.1 h
      obtain ⟨-, offset, rfl⟩ := planExternalUtxoRefresh_heights hplan 0
      obtain ⟨⟨chosen, hchosen, haddresses, hchildren⟩, hstart⟩ :=
        mem_externalUtxoRefreshBatches hbatch
      have haddress : ∀ address ∈ chosen, address.address = account.external address.childIndex :=
        fun address hmem => hgenuine.1 address (mem_allExternalAddresses (hchosen address hmem))
      refine ⟨rfl, ⟨birthday, safety, hgenuine.2, fun stored hstored => ?_⟩, fun address hmem => ?_,
        fun address hmem => ?_⟩
      · obtain ⟨childIndex, hchild, rfl⟩ := List.mem_map.1 hstored
        have hle := hstart childIndex hchild
        rw [hchildren] at hchild
        obtain ⟨address, hmem, rfl⟩ := List.mem_map.1 hchild
        rwa [lookup_preserved, if_pos (List.mem_map_of_mem (hchosen address hmem))] at hle
      · obtain ⟨childIndex, hchild, rfl⟩ := List.mem_map.1 hmem
        rw [hchildren] at hchild
        obtain ⟨address, haddr, rfl⟩ := List.mem_map.1 hchild
        rw [← haddress address haddr, haddresses]
        exact List.mem_map_of_mem haddr
      · rw [haddresses] at hmem
        obtain ⟨address, haddr, rfl⟩ := List.mem_map.1 hmem
        refine ⟨_, List.mem_map_of_mem (hchildren ▸ List.mem_map_of_mem haddr), ?_⟩
        intro height hheight
        rw [haddress address haddr]
        exact .external hheight
    · cases h
  · rename_i addresses recentLimit sweepLimit
    split at h
    · rename_i batches hplan
      obtain ⟨batch, hbatch, rfl⟩ := List.mem_map.1 h
      obtain ⟨offset, rfl⟩ := planInternalUtxoRefresh_batches hplan
      obtain ⟨⟨chosen, hchosen, haddresses, hchildren⟩, hstart⟩ :=
        mem_externalUtxoRefreshBatches hbatch
      refine ⟨rfl, ⟨0, 0, Nat.zero_le _, fun stored hstored => ?_⟩, fun _ => id,
        fun address hmem => ⟨_, List.mem_map_of_mem hmem, fun height => .other⟩⟩
      obtain ⟨address, hmem, rfl⟩ := List.mem_map.1 hstored
      rw [haddresses] at hmem
      obtain ⟨cached, hcached, rfl⟩ := List.mem_map.1 hmem
      obtain ⟨⟨index, address⟩, hpair, rfl⟩ := List.mem_map.1 (hchosen cached hcached)
      have hle := hstart index (hchildren ▸ List.mem_map_of_mem hcached)
      rwa [lookup_internal hgenuine hpair] at hle
    · cases h
  · rename_i addresses birthday safety internalAddresses tip
    split at h
    · rename_i groups sidecar hplan
      obtain ⟨group, hgroup, rfl⟩ := List.mem_map.1 h
      obtain ⟨-, hgroups⟩ := planNonExternalUtxoRefresh_heights hplan 0
      refine ⟨rfl, ⟨birthday, safety, hgenuine, fun stored hstored => ?_⟩, fun _ => id,
        fun address hmem => ⟨_, List.mem_map_of_mem hmem, fun height => .other⟩⟩
      obtain ⟨address, hmem, rfl⟩ := List.mem_map.1 hstored
      exact (hgroups group hgroup address hmem).2
    · cases h
  · cases h

theorem plan_completes (account : Account) (world : World) (event : Event) (height : ℕ) :
    Completes account.network [] [] height world.sidecar (world.plan account event).2 := by
  unfold World.plan
  split
  · split
    · rename_i hplan
      exact (planExternalUtxoRefresh_heights hplan height).1
    · exact .refl _ _ _ _
  · split
    · exact .refl _ _ _ _
    · exact .refl _ _ _ _
  · split
    · rename_i hplan
      exact (planNonExternalUtxoRefresh_heights hplan height).1
    · exact .refl _ _ _ _
  · exact .refl _ _ _ _

/-! ## Runs -/

theorem Covered.mono {queries more : List Query} {address : String} {height height' : ℕ}
    (h : Covered queries address height) (hqueries : ∀ query ∈ queries, query ∈ more)
    (hheight : height' ≤ height) : Covered more address height' := by
  intro block hblock
  obtain ⟨query, hquery, hrange⟩ := h block (hblock.trans_le hheight)
  exact ⟨query, hqueries query hquery, hrange⟩

/-- Completions are above the birthday, and planned batches query what they complete. -/
structure Grounded (account : Account) (world : World) : Prop where
  birthday_le : ∀ address height, Completed account world.sidecar address height →
    account.birthday ≤ height
  completes : ∀ planned ∈ world.planned, ∀ address ∈ planned.completes account,
    address ∈ planned.batch.addresses
  resets_le : ∀ planned ∈ world.planned, planned.resets ≤ world.resets

/-- Completions are earned, and so is the start of every batch that is planned since a reset. -/
structure Earned (account : Account) (world : World) : Prop where
  completed : ∀ address height, Completed account world.sidecar address height →
    Covered world.queries address height
  planned : ∀ planned ∈ world.planned, planned.resets = world.resets →
    ∀ address ∈ planned.batch.addresses, Covered world.queries address planned.batch.startHeight

/-- A completion after a write was set by it or was stored. -/
theorem Completes.completed {children : List ℕ} {addresses : List String} {height : ℕ}
    {sidecar' : Sidecar}
    (h : Completes account.network children addresses height world.sidecar sidecar')
    {address : String} {stored : ℕ} (hstored : Completed account sidecar' address stored) :
    (address ∈ children.map account.external ∨ address ∈ addresses) ∧ stored = height ∨
      Completed account world.sidecar address stored := by
  cases hstored with
  | external hstored =>
    obtain ⟨hmem, rfl⟩ | hold := h.external _ _ hstored
    · exact .inl ⟨.inl (List.mem_map_of_mem hmem), rfl⟩
    · exact .inr (.external hold)
  | other hstored =>
    obtain ⟨hmem, rfl⟩ | hold := h.other _ _ hstored
    · exact .inl ⟨.inr hmem, rfl⟩
    · exact .inr (.other hold)

theorem Completes.kept {height : ℕ} {sidecar' : Sidecar}
    (h : Completes account.network [] [] height world.sidecar sidecar') {address : String}
    {stored : ℕ} (hstored : Completed account sidecar' address stored) :
    Completed account world.sidecar address stored := by
  obtain ⟨hmem | hmem, -⟩ | hold := h.completed hstored
  · cases hmem
  · cases hmem
  · exact hold

/-- The mark of a batch sets the completions of its addresses. -/
theorem Planned.mark_completes {planned : Planned} {tip nowSeconds : ℕ} {sidecar' : Sidecar}
    (h : planned.mark account.network tip nowSeconds world.sidecar = .ok sidecar')
    {address : String} {stored : ℕ} (hstored : Completed account sidecar' address stored) :
    address ∈ planned.completes account ∧ stored = tip + 1 ∨
      Completed account world.sidecar address stored := by
  unfold Planned.mark at h
  unfold Planned.completes
  cases hscope : planned.scope <;> simp only [hscope] at h ⊢
  · refine ((markUtxoRefreshBatchComplete_completes h).completed hstored).imp_left ?_
    rintro ⟨hmem | hmem, hsame⟩
    · exact ⟨hmem, hsame⟩
    · cases hmem
  all_goals
    refine ((markNonExternalUtxoRefreshCompleteWithSweep_completes h).completed hstored).imp_left ?_
    rintro ⟨hmem | hmem, hsame⟩
    · cases hmem
    · exact ⟨hmem, hsame⟩

/-- A mark that finds no record has no effect. -/
theorem Planned.mark_unrecorded {planned : Planned} {tip nowSeconds : ℕ} {sidecar' : Sidecar}
    (hrecorded : recorded network sidecar = false)
    (h : planned.mark network tip nowSeconds sidecar = .ok sidecar') : sidecar' = sidecar := by
  unfold recorded at hrecorded
  unfold Planned.mark markNonExternalUtxoRefreshComplete markUtxoRefreshBatchComplete
    markNonExternalUtxoRefreshCompleteWithSweep at h
  cases hread : readCompatibleRecord network sidecar with
  | error e =>
    rw [hread] at h
    split at h
    · split_ifs at h
      · exact (Except.ok.inj h).symm
      · cases h
    · cases h
    · cases h
  | ok found =>
    cases found with
    | some record => simp [hread] at hrecorded
    | none =>
      rw [hread] at h
      split at h
      · split_ifs at h <;> exact (Except.ok.inj h).symm
      · exact (Except.ok.inj h).symm
      · exact (Except.ok.inj h).symm

/-- What a step does: it keeps completions, plans, executes a batch, or resets. -/
inductive Outcome (account : Account) (world : World) (event : Event) (world' : World) : Prop
  | planned (planned : List Planned) (hplanned : world'.planned = world.planned ++ planned)
      (hplan : ∀ batch ∈ planned, PlanOf account world batch)
      (hqueries : world'.queries = world.queries) (hresets : world'.resets = world.resets)
      (hcompleted : ∀ address height, Completed account world'.sidecar address height →
        Completed account world.sidecar address height)
  | executed (planned : Planned) (tip nowSeconds : ℕ) (marked : Bool)
      (hevent : event = .execute planned tip nowSeconds marked) (hmem : planned ∈ world.planned)
      (hplanned : world'.planned = world.planned)
      (hqueries : world'.queries = world.queries ++ planned.batch.addresses.map fun address =>
        ⟨address, planned.batch.startHeight, tip⟩)
      (hresets : world'.resets = world.resets)
      (hcompleted : ∀ address height, Completed account world'.sidecar address height →
        address ∈ planned.completes account ∧ height = tip + 1 ∧ marked ∧
            recorded account.network world.sidecar ∨
          Completed account world.sidecar address height)
  | reset (hplanned : world'.planned = world.planned) (hresets : world'.resets = world.resets + 1)
      (hcompleted : ∀ address height, Completed account world'.sidecar address height →
        account.birthday ≤ height ∧ Covered world'.queries address height)

theorem Outcome.write {result : Except String Sidecar}
    (h : ∀ sidecar', result = .ok sidecar' →
      Completes account.network [] [] 0 world.sidecar sidecar') :
    Outcome account world event (world.write result) := by
  cases result with
  | error e => exact .planned [] (List.append_nil _).symm nofun rfl rfl fun _ _ => id
  | ok sidecar' =>
    exact .planned [] (List.append_nil _).symm nofun rfl rfl fun _ _ => (h sidecar' rfl).kept

theorem Outcome.plan (hgenuine : Genuine account event) :
    Outcome account world event { world with
      sidecar := (world.plan account event).2
      planned := world.planned ++ (world.plan account event).1 } :=
  .planned _ rfl (fun _ => plan_sound hgenuine) rfl rfl fun _ _ =>
    (plan_completes account world event 0).kept

/-- What one step does. -/
theorem step_outcome (hgenuine : Genuine account event)
    (hstep : world.step account event = some world') : Outcome account world event world' := by
  cases event with
  | planExternal => exact Option.some.inj hstep ▸ .plan hgenuine
  | planInternal => exact Option.some.inj hstep ▸ .plan hgenuine
  | planNonExternal => exact Option.some.inj hstep ▸ .plan hgenuine
  | execute planned tip nowSeconds marked =>
    simp only [World.step] at hstep
    split_ifs at hstep with hmem hmarked
    · cases hmark : planned.mark account.network tip nowSeconds world.sidecar with
      | error e =>
        rw [hmark] at hstep
        obtain rfl := Option.some.inj hstep
        exact .executed planned tip nowSeconds marked rfl hmem rfl rfl rfl fun _ _ => .inr
      | ok sidecar' =>
        rw [hmark] at hstep
        obtain rfl := Option.some.inj hstep
        refine .executed planned tip nowSeconds marked rfl hmem rfl rfl rfl
          fun address height hcompleted => ?_
        cases hrecorded : recorded account.network world.sidecar with
        | true =>
          exact (Planned.mark_completes hmark hcompleted).imp_left fun ⟨hmem, hsame⟩ =>
            ⟨hmem, hsame, hmarked, rfl⟩
        | false =>
          obtain rfl := Planned.mark_unrecorded hrecorded hmark
          exact .inr hcompleted
    · obtain rfl := Option.some.inj hstep
      exact .executed planned tip nowSeconds marked rfl hmem rfl rfl rfl fun _ _ => .inr
  | writeClean addresses scannedHeight =>
    exact Option.some.inj hstep ▸ .write fun _ h => writeCleanAddresses_completes h 0
  | markDirty => exact Option.some.inj hstep ▸ .write fun _ h => markAccountDirty_completes h 0
  | invalidate =>
    simp only [World.step] at hstep
    split at hstep
    · rename_i sidecar hinvalidate
      obtain rfl := Option.some.inj hstep
      obtain ⟨hexternal, hother⟩ := @invalidateUtxoChecks_heights account.network _ _ hinvalidate
      refine .reset rfl rfl fun address height hcompleted => ?_
      cases hcompleted with
      | external h => exact nomatch (hexternal _).symm.trans h
      | other h => exact nomatch (hother _).symm.trans h
    · obtain rfl := Option.some.inj hstep
      exact .planned [] (List.append_nil _).symm nofun rfl rfl fun _ _ => id
  | delete =>
    obtain rfl := Option.some.inj hstep
    refine .reset rfl rfl fun address height hcompleted => ?_
    cases hcompleted with
    | external h => cases h
    | other h => cases h
  | older sidecar queries => exact Option.some.inj hstep ▸ .reset rfl rfl hgenuine

theorem Grounded.step (h : Grounded account world) (hgenuine : Genuine account event)
    (hstep : world.step account event = some world') : Grounded account world' := by
  cases step_outcome hgenuine hstep with
  | planned planned hplanned hplan hqueries hresets hcompleted =>
    refine ⟨fun address height hheight => h.birthday_le _ _ (hcompleted _ _ hheight), ?_, ?_⟩
    · rw [hplanned]
      exact List.forall_mem_append.2
        ⟨h.completes, fun batch hbatch => (hplan batch hbatch).completes⟩
    · rw [hplanned, hresets]
      exact List.forall_mem_append.2
        ⟨h.resets_le, fun batch hbatch => (hplan batch hbatch).resets.le⟩
  | executed planned tip nowSeconds marked hevent hmem hplanned hqueries hresets hcompleted =>
    refine ⟨fun address height hheight => ?_, hplanned ▸ h.completes, ?_⟩
    · obtain ⟨-, rfl, -⟩ | hold := hcompleted _ _ hheight
      · rw [hevent] at hgenuine
        exact Nat.le_succ_of_le hgenuine
      · exact h.birthday_le _ _ hold
    · rw [hplanned, hresets]
      exact h.resets_le
  | reset hplanned hresets hcompleted =>
    refine ⟨fun address height hheight => (hcompleted _ _ hheight).1, hplanned ▸ h.completes, ?_⟩
    rw [hplanned, hresets]
    exact fun planned hmem => Nat.le_succ_of_le (h.resets_le planned hmem)

/-- A start is at or below the completion that it continues. -/
theorem startHeightOf_le {birthday safety height : ℕ} (h : birthday ≤ height) :
    startHeightOf birthday safety (some height) ≤ height :=
  max_le (Nat.sub_le _ _) (min_le_of_left_le h)

theorem Earned.step (hgrounded : Grounded account world) (h : Earned account world)
    (hgenuine : Genuine account event) (htimely : Timely account world event)
    (hstep : world.step account event = some world') : Earned account world' := by
  cases step_outcome hgenuine hstep with
  | planned planned hplanned hplan hqueries hresets hcompleted =>
    refine ⟨fun address height hheight => hqueries ▸ h.completed _ _ (hcompleted _ _ hheight), ?_⟩
    rw [hplanned, hresets, hqueries]
    refine List.forall_mem_append.2 ⟨h.planned, fun batch hbatch _ address haddress => ?_⟩
    obtain ⟨-, ⟨birthday, safety, hbirthday, hstart⟩, -, hearned⟩ := hplan batch hbatch
    obtain ⟨stored, hmem, hstored⟩ := hearned address haddress
    have hle := hstart stored hmem
    cases stored with
    | none =>
      -- an address without a completion is queried from genesis
      intro block hblock
      exact absurd (hblock.trans_le hle) (Nat.not_lt_zero block)
    | some height =>
      have hcompletion := hstored height rfl
      refine (h.completed _ _ hcompletion).mono (fun _ => id) (hle.trans (startHeightOf_le ?_))
      exact hbirthday.trans (hgrounded.birthday_le _ _ hcompletion)
  | executed planned tip nowSeconds marked hevent hmem hplanned hqueries hresets hcompleted =>
    have hmore : ∀ query ∈ world.queries, query ∈ world'.queries := fun query hquery =>
      hqueries ▸ List.mem_append_left _ hquery
    refine ⟨fun address height hheight => ?_, ?_⟩
    · obtain ⟨hcompletes, rfl, hmarked, hrecorded⟩ | hold := hcompleted _ _ hheight
      · have haddress := hgrounded.completes planned hmem address hcompletes
        have hbefore : Covered world.queries address planned.batch.startHeight := by
          rw [hevent] at htimely
          obtain hzero | hresets := htimely hmarked hrecorded
          · rw [hzero]
            exact fun block hblock => absurd hblock (Nat.not_lt_zero block)
          · exact h.planned planned hmem hresets address haddress
        intro block hblock
        obtain hlt | hge := Nat.lt_or_ge block planned.batch.startHeight
        · exact hbefore.mono hmore le_rfl block hlt
        · refine ⟨⟨address, planned.batch.startHeight, tip⟩, ?_, rfl, hge, Nat.le_of_lt_succ hblock⟩
          rw [hqueries]
          exact List.mem_append_right _ (List.mem_map_of_mem haddress)
      · exact (h.completed _ _ hold).mono hmore le_rfl
    · rw [hplanned, hresets]
      exact fun other hother hsame address haddress =>
        (h.planned other hother hsame address haddress).mono hmore le_rfl
  | reset hplanned hresets hcompleted =>
    refine ⟨fun address height hheight => (hcompleted _ _ hheight).2, ?_⟩
    rw [hplanned, hresets]
    intro planned hmem hsame
    have hle := hgrounded.resets_le planned hmem
    omega

theorem grounded_of_reaches
    (h : (refreshes account).Reaches (fun _ event => Genuine account event) world) :
    Grounded account world := by
  refine h.invariant ⟨fun address height hcompleted => ?_, nofun, nofun⟩
    fun world event world' hworld hgenuine hstep => hworld.step hgenuine hstep
  cases hcompleted with
  | external h => cases h
  | other h => cases h

theorem earned_of_reaches
    (h : (refreshes account).Reaches
      (fun world event => Genuine account event ∧ Timely account world event) world) :
    Earned account world := by
  have hboth : Grounded account world ∧ Earned account world := by
    refine h.invariant (I := fun world => Grounded account world ∧ Earned account world) ?_ ?_
    · refine ⟨grounded_of_reaches .init, fun address height hcompleted => ?_, nofun⟩
      cases hcompleted with
      | external h => cases h
      | other h => cases h
    · rintro world event world' ⟨hgrounded, hearned⟩ ⟨hgenuine, htimely⟩ hstep
      exact ⟨hgrounded.step hgenuine hstep, hearned.step hgrounded hgenuine htimely hstep⟩
  exact hboth.2

/-- The marks of a scope keep the completions of the other. -/
theorem step_other_scope {planned : Planned} {tip nowSeconds : ℕ} {marked : Bool}
    (hstep : world.step account (.execute planned tip nowSeconds marked) = some world') :
    (planned.scope = .external → ∀ address stored,
      otherHeight account.network world'.sidecar address = some stored →
      otherHeight account.network world.sidecar address = some stored) ∧
    (planned.scope ≠ .external → ∀ childIndex stored,
      externalHeight account.network world'.sidecar childIndex = some stored →
      externalHeight account.network world.sidecar childIndex = some stored) := by
  simp only [World.step] at hstep
  split_ifs at hstep with hmem hmarked
  · cases hmark : planned.mark account.network tip nowSeconds world.sidecar with
    | error e =>
      rw [hmark] at hstep
      obtain rfl := Option.some.inj hstep
      exact ⟨fun _ _ _ => id, fun _ _ _ => id⟩
    | ok sidecar' =>
      rw [hmark] at hstep
      obtain rfl := Option.some.inj hstep
      unfold Planned.mark at hmark
      constructor <;> intro hscope
      · rw [hscope] at hmark
        intro address stored hstored
        exact ((markUtxoRefreshBatchComplete_completes hmark).other _ _ hstored).resolve_left
          fun hnone => nomatch hnone.1
      · intro childIndex stored hstored
        cases hother : planned.scope with
        | external => exact absurd hother hscope
        | internalSweep =>
          rw [hother] at hmark
          exact ((markNonExternalUtxoRefreshCompleteWithSweep_completes hmark).external _ _
            hstored).resolve_left fun hnone => nomatch hnone.1
        | nonExternal =>
          rw [hother] at hmark
          exact ((markNonExternalUtxoRefreshCompleteWithSweep_completes hmark).external _ _
            hstored).resolve_left fun hnone => nomatch hnone.1
  · obtain rfl := Option.some.inj hstep
    exact ⟨fun _ _ _ => id, fun _ _ _ => id⟩

/-- In runs of timely steps every block below a completion was queried. In all runs plans start at
or below the completions they continue, and marks keep to their scope. -/
theorem refreshes_cover (account : Account) :
    (∀ world : World, (refreshes account).Reaches
        (fun world event => Genuine account event ∧ Timely account world event) world →
      ∀ address height, Completed account world.sidecar address height →
        Covered world.queries address height) ∧
    ∀ world : World, (refreshes account).Reaches (fun _ event => Genuine account event) world →
      (∀ event, Genuine account event → ∀ planned ∈ (world.plan account event).1,
        ∀ height, some height ∈ planned.stored account world.sidecar →
          planned.batch.startHeight ≤ height) ∧
      ∀ (planned : Planned) (tip nowSeconds : ℕ) (marked : Bool) (world' : World),
        world.step account (.execute planned tip nowSeconds marked) = some world' →
        (planned.scope = .external → ∀ address stored,
          otherHeight account.network world'.sidecar address = some stored →
          otherHeight account.network world.sidecar address = some stored) ∧
        (planned.scope ≠ .external → ∀ childIndex stored,
          externalHeight account.network world'.sidecar childIndex = some stored →
          externalHeight account.network world.sidecar childIndex = some stored) := by
  refine ⟨fun world h => (earned_of_reaches h).completed, fun world h =>
    ⟨fun event hgenuine planned hplanned height hstored => ?_,
      fun planned tip nowSeconds marked world' hstep => step_other_scope hstep⟩⟩
  obtain ⟨birthday, safety, hbirthday, hstart⟩ := (plan_sound hgenuine hplanned).start_le
  refine (hstart _ hstored).trans (startHeightOf_le (hbirthday.trans ?_))
  have hcompleted : ∃ address, Completed account world.sidecar address height := by
    unfold Planned.stored at hstored
    split at hstored <;> obtain ⟨key, -, hkey⟩ := List.mem_map.1 hstored
    · exact ⟨_, .external hkey⟩
    · exact ⟨_, .other hkey⟩
  obtain ⟨address, hcompleted⟩ := hcompleted
  exact (grounded_of_reaches h).birthday_le _ _ hcompleted

/-- An account with one external address in use, created at height 500. -/
def savings : Account := ⟨.main, 500, fun _ => "t1receive", fun _ => "t1change"⟩

def planSavings : Event := .planExternal [⟨0, "t1receive", false⟩] 500 500 20 20

/-- The batch that discovers the address, and the batch that follows it at height 1000. -/
def discovery : Planned := ⟨.external, ⟨["t1receive"], [0], 0, none⟩, 0⟩

def followUp : Planned := ⟨.external, ⟨["t1receive"], [0], 901, none⟩, 0⟩

/-- The follow-up is planned, the checks are invalidated, and the follow-up is executed. -/
def rewindDuringRefresh : List Event :=
  [planSavings, .execute discovery 1000 0 true, planSavings, .invalidate,
    .execute followUp 1000 0 true]

theorem genuine_rewindDuringRefresh : ∀ event ∈ rewindDuringRefresh, Genuine savings event := by
  have hplan : Genuine savings planSavings := ⟨by simp [savings], le_rfl⟩
  have hexecute (planned : Planned) : Genuine savings (.execute planned 1000 0 true) := by
    change 500 ≤ 1000
    decide
  simp only [rewindDuringRefresh, List.forall_mem_cons]
  exact ⟨hplan, hexecute _, hplan, trivial, hexecute _, nofun⟩

/-- A batch that is executed across an invalidation is marked: the address is complete up to 1001,
and nothing below 901 was queried. -/
theorem stale_batch_marked :
    ¬ ∀ (account : Account) (world : World),
      (refreshes account).Reaches (fun _ event => Genuine account event) world →
      ∀ address height, Completed account world.sidecar address height →
        Covered world.queries address height := by
  intro hall
  let final := ((refreshes savings).run (refreshes savings).init rewindDuringRefresh).get
    (by decide +kernel)
  have hreaches : (refreshes savings).Reaches (fun _ event => Genuine savings event) final :=
    Transition.Reaches.init.run (fun event hevent _ => genuine_rewindDuringRefresh event hevent)
      (Option.some_get _).symm
  have hcompleted : Completed savings final.sidecar "t1receive" 1001 :=
    @Completed.external savings final.sidecar 0 1001 (by decide +kernel)
  obtain ⟨query, hquery, -, hstart, -⟩ := hall savings final hreaches _ _ hcompleted 0 (by decide)
  have hnone : ∀ query ∈ final.queries, ¬ query.start ≤ 0 := by decide +kernel
  exact hnone query hquery hstart

/-- The address is complete up to 1001 once its discovery is marked. -/
theorem refreshes_cover_discovery :
    Covered [⟨"t1receive", 0, 1000⟩] "t1receive" 1001 := by
  let events : List Event := [planSavings, .execute discovery 1000 0 true]
  let final := ((refreshes savings).run (refreshes savings).init events).get (by decide +kernel)
  have hok : ∀ event ∈ events, ∀ world, Genuine savings event ∧ Timely savings world event := by
    refine fun event hevent world => ⟨genuine_rewindDuringRefresh event ?_, ?_⟩
    · simp only [events, List.mem_cons, List.not_mem_nil, or_false] at hevent
      obtain rfl | rfl := hevent <;> simp [rewindDuringRefresh]
    · simp only [events, List.mem_cons, List.not_mem_nil, or_false] at hevent
      obtain rfl | rfl := hevent
      · trivial
      · exact fun _ _ => .inl rfl
  have hreaches : (refreshes savings).Reaches
      (fun world event => Genuine savings event ∧ Timely savings world event) final :=
    Transition.Reaches.init.run hok (Option.some_get _).symm
  have hcompleted : Completed savings final.sidecar "t1receive" 1001 :=
    @Completed.external savings final.sidecar 0 1001 (by decide +kernel)
  exact (refreshes_cover savings).1 final hreaches _ _ hcompleted

end VizorWallet.Receive
