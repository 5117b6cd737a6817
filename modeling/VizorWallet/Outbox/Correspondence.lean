import VizorWallet.Library.Pointwise
import VizorWallet.Outbox.Moves

/-!
# Receipts and items

Every item that waits for the wallet has one receipt with its outcome, and every receipt has its
item.

## Main definitions

* `Snapshot.Corresponds` — receipts and items correspond, and identifiers are unique.

## Main results

* `Snapshot.Moves.corresponds`, `stageBatch_corresponds`, `acknowledgeReceipts_corresponds`,
  `discardBatch_corresponds` — the operations keep the correspondence.
-/

namespace VizorWallet.Outbox

namespace Snapshot

/-- Receipts and items correspond, and identifiers are unique. -/
structure Corresponds (s : Snapshot) : Prop where
  batchIds : (s.batches.map Batch.batchId).Nodup
  itemIds : s.itemIds.Nodup
  receiptItems : (s.receipts.map Receipt.itemId).Nodup
  present : ∀ r ∈ s.receipts, ∃ batch ∈ s.batches, ∃ item ∈ batch.items,
    r.IsOf batch item ∧ item.status = r.outcome.status
  recorded : ∀ batch ∈ s.batches, ∀ item ∈ batch.items, item.status.isAwaiting →
    ∃ r ∈ s.receipts, r.IsOf batch item

variable {s s' : Snapshot} {δ : Item → Item → Prop} {R : List Receipt}

theorem corresponds_empty : Corresponds {} where
  batchIds := List.nodup_nil
  itemIds := List.nodup_nil
  receiptItems := List.nodup_nil
  present := by simp
  recorded := by simp

theorem Moves.batchIds (h : s.Moves δ s' R) :
    s'.batches.map Batch.batchId = s.batches.map Batch.batchId :=
  map_eq_of_forall₂ h.batches fun _ _ hb => hb.batchId

theorem Moves.itemIds (h : s.Moves δ s' R) : s'.itemIds = s.itemIds := by
  have hmap : s'.batches.map (fun b => b.items.map Item.itemId) =
      s.batches.map fun b => b.items.map Item.itemId :=
    map_eq_of_forall₂ h.batches fun _ _ hb =>
      map_eq_of_forall₂ hb.items fun _ _ hi => hi.1.itemId
  rw [Snapshot.itemIds, Snapshot.itemIds, List.flatMap_def, List.flatMap_def, hmap]

/-- A receipt stays about its item. -/
theorem isOf_of_move {r : Receipt} {batch batch' : Batch} {item item' : Item}
    (hb : BatchMove δ R batch batch') (hi : ItemMove R batch.batchId item item')
    (h : r.IsOf batch item) : r.IsOf batch' item' where
  receiptId := by rw [hb.batchId, hi.itemId, h.receiptId]
  batchId := h.batchId.trans hb.batchId.symm
  itemId := h.itemId.trans hi.itemId.symm
  network := h.network.trans hb.network.symm
  accountUuid := h.accountUuid.trans hb.accountUuid.symm
  runId := h.runId.trans hb.runId.symm
  txidHex := h.txidHex.trans hi.txidHex.symm

/-- Moving items keeps the correspondence. -/
theorem Moves.corresponds (h : s.Moves δ s' R) (hs : s.Corresponds) : s'.Corresponds where
  batchIds := h.batchIds ▸ hs.batchIds
  itemIds := h.itemIds ▸ hs.itemIds
  receiptItems := by
    rw [h.receipts, List.map_append]
    refine List.nodup_append.2 ⟨hs.receiptItems, h.nodup, ?_⟩
    -- a new receipt is about an item that had none
    intro id hold id' hnew heq
    obtain ⟨r, hr, rfl⟩ := List.mem_map.1 hold
    obtain ⟨r', hr', rfl⟩ := List.mem_map.1 hnew
    obtain ⟨b, hb, i, hi, hof, hstatus⟩ := hs.present r hr
    obtain ⟨b', hb', i', hi', hof', hnot⟩ := h.source r' hr'
    have hids : i.itemId = i'.itemId := hof.itemId.symm.trans (heq.trans hof'.itemId)
    obtain rfl := batch_unique hs.itemIds hb hb' hi hi' hids
    obtain rfl := item_unique hs.itemIds hb hi hi' hids
    simp [hstatus] at hnot
  present r hr := by
    rw [h.receipts] at hr
    obtain hr | hr := List.mem_append.1 hr
    · obtain ⟨b, hb, i, hi, hof, hstatus⟩ := hs.present r hr
      obtain ⟨b', hb', hbb⟩ := exists_mem_right h.batches hb
      obtain ⟨i', hi', hii, -⟩ := exists_mem_right hbb.items hi
      refine ⟨b', hb', i', hi', isOf_of_move hbb hii hof, ?_⟩
      rw [hii.awaiting (by simp [hstatus]), hstatus]
    · obtain ⟨b, hb, i, hi, hof, -⟩ := h.source r hr
      obtain ⟨b', hb', hbb⟩ := exists_mem_right h.batches hb
      obtain ⟨i', hi', hii, -⟩ := exists_mem_right hbb.items hi
      exact ⟨b', hb', i', hi', isOf_of_move hbb hii hof, (hii.settled r hr hof.itemId).1⟩
  recorded b' hb' i' hi' hawaiting := by
    obtain ⟨b, hb, hbb⟩ := exists_mem_left h.batches hb'
    obtain ⟨i, hi, hii, -⟩ := exists_mem_left hbb.items hi'
    rw [h.receipts]
    obtain hold | ⟨r, hr, hrid, hrb⟩ := hii.recorded hawaiting
    · obtain ⟨r, hr, hof⟩ := hs.recorded b hb i hi hold
      exact ⟨r, List.mem_append_left _ hr, isOf_of_move hbb hii hof⟩
    · obtain ⟨b₀, hb₀, i₀, hi₀, hof, -⟩ := h.source r hr
      have hids : i₀.itemId = i.itemId := hof.itemId.symm.trans hrid
      obtain rfl := batch_unique hs.itemIds hb₀ hb hi₀ hi hids
      obtain rfl := item_unique hs.itemIds hb₀ hi₀ hi hids
      exact ⟨r, List.mem_append_right _ hr, isOf_of_move hbb hii hof⟩

/-! ## Staging -/

/-- The same batch of the same run. -/
structure SameRun (batch batch' : Batch) : Prop where
  batchId : batch'.batchId = batch.batchId
  network : batch'.network = batch.network
  accountUuid : batch'.accountUuid = batch.accountUuid
  runId : batch'.runId = batch.runId

theorem SameRun.refl (batch : Batch) : SameRun batch batch := ⟨rfl, rfl, rfl, rfl⟩

theorem SameRun.isOf {batch batch' : Batch} {item : Item} {r : Receipt} (h : SameRun batch batch')
    (hof : r.IsOf batch item) : r.IsOf batch' item where
  receiptId := by rw [h.batchId, hof.receiptId]
  batchId := hof.batchId.trans h.batchId.symm
  itemId := hof.itemId
  network := hof.network.trans h.network.symm
  accountUuid := hof.accountUuid.trans h.accountUuid.symm
  runId := hof.runId.trans h.runId.symm
  txidHex := hof.txidHex

/-- New items, which are staged and have no attempt. -/
structure Grows (s s' : Snapshot) : Prop where
  receipts : s'.receipts = s.receipts
  batchIds : (s.batches.map Batch.batchId).Nodup → (s'.batches.map Batch.batchId).Nodup
  kept : ∀ batch ∈ s.batches, ∃ batch' ∈ s'.batches, SameRun batch batch' ∧
    ∀ item ∈ batch.items, item ∈ batch'.items
  fresh : ∀ batch' ∈ s'.batches, ∀ item ∈ batch'.items,
    (item.status = .staged ∧ item.attemptCount = 0) ∨
      ∃ batch ∈ s.batches, SameRun batch batch' ∧ item ∈ batch.items

theorem Grows.corresponds (h : s.Grows s') (hids : s'.itemIds.Nodup) (hs : s.Corresponds) :
    s'.Corresponds where
  batchIds := h.batchIds hs.batchIds
  itemIds := hids
  receiptItems := h.receipts ▸ hs.receiptItems
  present r hr := by
    rw [h.receipts] at hr
    obtain ⟨b, hb, i, hi, hof, hstatus⟩ := hs.present r hr
    obtain ⟨b', hb', hsame, hitems⟩ := h.kept b hb
    exact ⟨b', hb', i, hitems i hi, hsame.isOf hof, hstatus⟩
  recorded b' hb' i hi hawaiting := by
    rw [h.receipts]
    obtain ⟨hstaged, -⟩ | ⟨b, hb, hsame, hi⟩ := h.fresh b' hb' i hi
    · simp [hstaged, ItemStatus.isAwaiting] at hawaiting
    · obtain ⟨r, hr, hof⟩ := hs.recorded b hb i hi hawaiting
      exact ⟨r, hr, hsame.isOf hof⟩

theorem newItems_subset {existing incoming added : List Item}
    (h : newItems existing incoming = .ok added) : ∀ item ∈ added, item ∈ incoming := by
  induction incoming generalizing added with
  | nil =>
    obtain rfl := Except.ok.inj h
    simp
  | cons head rest ih =>
    rw [newItems] at h
    split at h
    · obtain ⟨_, -, h⟩ := bind_eq_ok.1 h
      exact fun item hitem => List.mem_cons_of_mem _ (ih h item hitem)
    · simp only [bind_eq_ok, pure_eq_ok] at h
      obtain ⟨_, -, added', hadded, rfl⟩ := h
      intro item hitem
      obtain rfl | hitem := List.mem_cons.1 hitem
      · exact List.mem_cons_self
      · exact List.mem_cons_of_mem _ (ih hadded item hitem)

variable {digestHex : Bytes → String}

theorem decode_fresh {batch : IncomingBatch} {item : Item}
    (h : item ∈ (batch.decode digestHex).items) :
    item.status = .staged ∧ item.attemptCount = 0 := by
  obtain ⟨incoming, -, rfl⟩ := List.mem_map.1 h
  exact ⟨rfl, rfl⟩

/-- A batch that is staged again is of the same run and gains incoming items. -/
theorem restage_eq_ok {existing batch staged : Batch} (h : existing.restage batch = .ok staged) :
    SameRun existing staged ∧
      ∃ added, staged.items = existing.items ++ added ∧ ∀ item ∈ added, item ∈ batch.items := by
  simp only [Batch.restage, bind_eq_ok, ensure_eq_ok, pure_eq_ok] at h
  obtain ⟨_, -, _, -, _, -, added, hadded, rfl⟩ := h
  exact ⟨⟨rfl, rfl, rfl, rfl⟩, added, rfl, newItems_subset hadded⟩

/-- Batches that gain new items. -/
theorem Grows.of_map {g : Batch → Batch} (hbatches : s'.batches = s.batches.map g)
    (hreceipts : s'.receipts = s.receipts)
    (hg : ∀ b ∈ s.batches, SameRun b (g b) ∧ ∃ added, (g b).items = b.items ++ added ∧
      ∀ item ∈ added, item.status = .staged ∧ item.attemptCount = 0) : s.Grows s' where
  receipts := hreceipts
  batchIds hnodup := by
    have hids : s'.batches.map Batch.batchId = s.batches.map Batch.batchId := by
      rw [hbatches, List.map_map]
      exact List.map_congr_left fun b hb => (hg b hb).1.batchId
    rwa [hids]
  kept b hb := by
    obtain ⟨hsame, added, hitems, -⟩ := hg b hb
    exact ⟨g b, hbatches ▸ List.mem_map_of_mem hb, hsame, fun i hi => by simp [hitems, hi]⟩
  fresh b' hb' i hi := by
    rw [hbatches] at hb'
    obtain ⟨b, hb, rfl⟩ := List.mem_map.1 hb'
    obtain ⟨hsame, added, hitems, hadded⟩ := hg b hb
    rw [hitems] at hi
    obtain hi | hi := List.mem_append.1 hi
    · exact .inr ⟨b, hb, hsame, hi⟩
    · exact .inl (hadded i hi)

/-- A new batch of new items. -/
theorem Grows.of_append {batch : Batch} (hbatches : s'.batches = s.batches ++ [batch])
    (hreceipts : s'.receipts = s.receipts)
    (hnew : ∀ b ∈ s.batches, b.batchId ≠ batch.batchId)
    (hfresh : ∀ item ∈ batch.items, item.status = .staged ∧ item.attemptCount = 0) :
    s.Grows s' where
  receipts := hreceipts
  batchIds hnodup := by
    rw [hbatches, List.map_append]
    refine List.nodup_append.2 ⟨hnodup, List.nodup_singleton _, ?_⟩
    intro id hold id' hid' heq
    obtain ⟨b, hb, rfl⟩ := List.mem_map.1 hold
    obtain rfl := List.mem_singleton.1 hid'
    exact hnew b hb heq
  kept b hb := ⟨b, hbatches ▸ List.mem_append_left _ hb, SameRun.refl b, fun _ => id⟩
  fresh b' hb' i hi := by
    rw [hbatches] at hb'
    obtain hb' | hb' := List.mem_append.1 hb'
    · exact .inr ⟨b', hb', SameRun.refl b', hi⟩
    · obtain rfl := List.mem_singleton.1 hb'
      exact .inl (hfresh i hi)

theorem stageBatch_grows {batch : IncomingBatch} (hids : (s.batches.map Batch.batchId).Nodup)
    (h : s.stageBatch digestHex batch = .ok s') : s.Grows s' := by
  unfold stageBatch stage at h
  obtain ⟨_, -, h⟩ := bind_eq_ok.1 h
  cases hfind : s.batches.find? (·.batchId = (batch.decode digestHex).batchId) with
  | none =>
    simp only [hfind, pure_eq_ok] at h
    obtain rfl := h
    refine Grows.of_append rfl rfl (fun b hb heq => ?_) fun i hi => decode_fresh hi
    exact List.find?_eq_none.1 hfind b hb (decide_eq_true heq)
  | some existing =>
    simp only [hfind, bind_eq_ok, pure_eq_ok] at h
    obtain ⟨staged, hstaged, rfl⟩ := h
    obtain ⟨hsame, added, hitems, hadded⟩ := restage_eq_ok hstaged
    have hunique := pairwise_batchId hids (batch.decode digestHex).batchId
    refine Grows.of_map (modifyFirst_eq_map hunique) rfl fun b hb => ?_
    by_cases hp : decide (b.batchId = (batch.decode digestHex).batchId)
    · obtain rfl := eq_of_find?_eq_some hunique hfind hb hp
      rw [if_pos hp]
      exact ⟨hsame, added, hitems, fun i hi => decode_fresh (hadded i hi)⟩
    · rw [if_neg hp]
      exact ⟨SameRun.refl b, [], (List.append_nil _).symm, by simp⟩

/-! ## Removals -/

/-- Batches, items and receipts that go; what stays is as it was. -/
structure Shrinks (s s' : Snapshot) : Prop where
  batchIds : (s'.batches.map Batch.batchId).Sublist (s.batches.map Batch.batchId)
  itemIds : s'.itemIds.Sublist s.itemIds
  receipts : s'.receipts.Sublist s.receipts
  subset : ∀ batch' ∈ s'.batches, ∃ batch ∈ s.batches, SameRun batch batch' ∧
    ∀ item ∈ batch'.items, item ∈ batch.items
  item_kept : ∀ r ∈ s'.receipts, ∀ batch ∈ s.batches, ∀ item ∈ batch.items, r.IsOf batch item →
    ∃ batch' ∈ s'.batches, SameRun batch batch' ∧ item ∈ batch'.items
  receipt_kept : ∀ batch' ∈ s'.batches, ∀ item ∈ batch'.items, ∀ r ∈ s.receipts,
    r.IsOf batch' item → r ∈ s'.receipts

theorem Shrinks.corresponds (h : s.Shrinks s') (hs : s.Corresponds) : s'.Corresponds where
  batchIds := hs.batchIds.sublist h.batchIds
  itemIds := hs.itemIds.sublist h.itemIds
  receiptItems := hs.receiptItems.sublist (h.receipts.map _)
  present r hr := by
    obtain ⟨b, hb, i, hi, hof, hstatus⟩ := hs.present r (h.receipts.subset hr)
    obtain ⟨b', hb', hsame, hi'⟩ := h.item_kept r hr b hb i hi hof
    exact ⟨b', hb', i, hi', hsame.isOf hof, hstatus⟩
  recorded b' hb' i hi hawaiting := by
    obtain ⟨b, hb, hsame, hsub⟩ := h.subset b' hb'
    obtain ⟨r, hr, hof⟩ := hs.recorded b hb i (hsub i hi) hawaiting
    exact ⟨r, h.receipt_kept b' hb' i hi r hr (hsame.isOf hof), hsame.isOf hof⟩

/-- What an acknowledgement leaves of a batch. -/
def acknowledgeBatch (receipts : List Receipt) (receiptIds : List String) (batch : Batch) :
    Option Batch :=
  if ¬ isRetired receipts receiptIds batch.batchId ∧
      ¬ isSpent (stripItems receipts receiptIds batch) then
    some (stripItems receipts receiptIds batch)
  else none

theorem acknowledgeReceipts_batches (receiptIds : List String) :
    (s.acknowledgeReceipts receiptIds).batches =
      s.batches.filterMap (acknowledgeBatch s.receipts receiptIds) := by
  refine filter_map_filter.trans (List.filterMap_congr fun b _ => ?_)
  simp [acknowledgeBatch]

theorem acknowledgeBatch_eq_some {receipts : List Receipt} {receiptIds : List String}
    {batch batch' : Batch} :
    acknowledgeBatch receipts receiptIds batch = some batch' ↔
      isRetired receipts receiptIds batch.batchId = false ∧ isSpent batch' = false ∧
        stripItems receipts receiptIds batch = batch' := by
  unfold acknowledgeBatch
  split_ifs with h <;> grind

theorem isReconciled_iff {receipts : List Receipt} {receiptIds : List String} {itemId : String} :
    isReconciled receipts receiptIds itemId ↔
      ∃ r ∈ receipts, r.itemId = itemId ∧ isAcknowledged receiptIds r := by
  simp [isReconciled]

theorem isRetired_iff {receipts : List Receipt} {receiptIds : List String} {batchId : String} :
    isRetired receipts receiptIds batchId ↔
      (∃ r ∈ receipts, r.batchId = batchId ∧ isAcknowledged receiptIds r ∧ r.outcome.isTerminal) ∧
        ∀ r ∈ receipts, r.batchId = batchId → isAcknowledged receiptIds r := by
  simp [isRetired]

theorem mem_stripItems {receipts : List Receipt} {receiptIds : List String} {batch : Batch}
    {item : Item} : item ∈ (stripItems receipts receiptIds batch).items ↔
      item ∈ batch.items ∧ ¬ isReconciled receipts receiptIds item.itemId := by
  simp [stripItems]

/-- The receipts that stay are about items of other identifiers than the reconciled ones. -/
theorem not_isReconciled_of_kept (hs : s.Corresponds) {receiptIds : List String} {r : Receipt}
    (hr : r ∈ s.receipts) (hkept : isAcknowledged receiptIds r = false) :
    ¬ isReconciled s.receipts receiptIds r.itemId := by
  intro h
  obtain ⟨r', hr', heq, hack⟩ := isReconciled_iff.1 h
  have hsame : r' = r := List.inj_on_of_nodup_map hs.receiptItems hr' hr heq
  rw [hsame, hkept] at hack
  cases hack

theorem acknowledgeReceipts_shrinks (hs : s.Corresponds) (receiptIds : List String) :
    s.Shrinks (s.acknowledgeReceipts receiptIds) where
  batchIds := by
    rw [acknowledgeReceipts_batches]
    have hsub := flatMap_filterMap_sublist (l := s.batches) (g := fun b => [b.batchId])
      (f := acknowledgeBatch s.receipts receiptIds) fun a b h => by
        obtain ⟨-, -, rfl⟩ := acknowledgeBatch_eq_some.1 h
        exact .refl _
    simpa only [List.map_eq_flatMap] using hsub
  itemIds := by
    rw [itemIds, acknowledgeReceipts_batches]
    refine flatMap_filterMap_sublist fun a b h => ?_
    obtain ⟨-, -, rfl⟩ := acknowledgeBatch_eq_some.1 h
    exact List.filter_sublist.map _
  receipts := List.filter_sublist
  subset b' hb' := by
    rw [acknowledgeReceipts_batches] at hb'
    obtain ⟨b, hb, h⟩ := List.mem_filterMap.1 hb'
    obtain ⟨-, -, rfl⟩ := acknowledgeBatch_eq_some.1 h
    exact ⟨b, hb, ⟨rfl, rfl, rfl, rfl⟩, fun i hi => (mem_stripItems.1 hi).1⟩
  item_kept r hr b hb i hi hof := by
    obtain ⟨hr, hkept⟩ := List.mem_filter.1 hr
    have hkept : isAcknowledged receiptIds r = false := by simpa using hkept
    have hstays : i ∈ (stripItems s.receipts receiptIds b).items :=
      mem_stripItems.2 ⟨hi, hof.itemId ▸ not_isReconciled_of_kept hs hr hkept⟩
    refine ⟨stripItems s.receipts receiptIds b, ?_, ⟨rfl, rfl, rfl, rfl⟩, hstays⟩
    rw [acknowledgeReceipts_batches]
    refine List.mem_filterMap.2 ⟨b, hb, acknowledgeBatch_eq_some.2 ⟨?_, ?_, rfl⟩⟩
    · by_contra hretired
      have hall := (isRetired_iff.1 (by simpa using hretired)).2 r hr hof.batchId
      simp [hkept] at hall
    · have hne := List.ne_nil_of_mem hstays
      simp [isSpent, hne]
  receipt_kept b' hb' i hi r hr hof := by
    rw [acknowledgeReceipts_batches] at hb'
    obtain ⟨b, hb, h⟩ := List.mem_filterMap.1 hb'
    obtain ⟨-, -, rfl⟩ := acknowledgeBatch_eq_some.1 h
    refine List.mem_filter.2 ⟨hr, ?_⟩
    by_contra hack
    exact (mem_stripItems.1 hi).2 (isReconciled_iff.2 ⟨r, hr, hof.itemId, by simpa using hack⟩)

theorem mem_eraseP_batchId {batches : List Batch} {batch : Batch} {batchId : String}
    (hne : batch.batchId ≠ batchId) (hb : batch ∈ batches) :
    batch ∈ batches.eraseP (·.batchId = batchId) := by
  rw [List.mem_eraseP_of_neg (by simpa using hne)]
  exact hb

/-- Removing a batch without receipts. -/
theorem eraseP_shrinks {batchId : String}
    (hbatches : s'.batches = s.batches.eraseP (·.batchId = batchId))
    (hreceipts : s'.receipts = s.receipts) (hnone : ∀ r ∈ s.receipts, r.batchId ≠ batchId) :
    s.Shrinks s' where
  batchIds := hbatches ▸ List.eraseP_sublist.map _
  itemIds := by
    rw [itemIds, hbatches]
    exact List.eraseP_sublist.flatMap _
  receipts := hreceipts ▸ .refl _
  subset b hb := by
    rw [hbatches] at hb
    exact ⟨b, List.mem_of_mem_eraseP hb, SameRun.refl b, fun _ => id⟩
  item_kept r hr b hb i hi hof := by
    rw [hreceipts] at hr
    have hne : b.batchId ≠ batchId := fun heq => hnone r hr (hof.batchId.trans heq)
    exact ⟨b, hbatches ▸ mem_eraseP_batchId hne hb, SameRun.refl b, hi⟩
  receipt_kept _ _ _ _ r hr _ := hreceipts ▸ hr

/-- A discarded batch has neither attempts nor receipts. -/
theorem discardBatch_eq_ok {batchId : String} {found : Bool}
    (h : s.discardBatch batchId = .ok (s', found)) :
    s' = s ∨ ∃ batch, s.batches.find? (·.batchId = batchId) = some batch ∧
      (∀ item ∈ batch.items, item.status ≠ .submitting ∧ item.attemptCount = 0) ∧
      (∀ r ∈ s.receipts, r.batchId ≠ batchId) ∧
      s'.batches = s.batches.eraseP (·.batchId = batchId) ∧ s'.receipts = s.receipts := by
  unfold discardBatch at h
  cases hfind : s.batches.find? (·.batchId = batchId) with
  | none =>
    simp only [hfind, pure_eq_ok, Prod.mk.injEq] at h
    exact .inl h.1.symm
  | some batch =>
    simp only [hfind, bind_eq_ok, ensure_eq_ok, pure_eq_ok, Prod.mk.injEq] at h
    obtain ⟨_, ⟨hitems, hreceipts⟩, rfl, -⟩ := h
    refine .inr ⟨batch, rfl, fun i hi => ?_, fun r hr heq => ?_, rfl, rfl⟩
    · simp only [List.any_eq_true, decide_eq_true_eq, not_exists, not_and, not_or] at hitems
      exact ⟨(hitems i hi).1, Nat.eq_zero_of_not_pos (hitems i hi).2⟩
    · exact hreceipts (List.any_eq_true.2 ⟨r, hr, decide_eq_true heq⟩)

/-- Announcing a batch changes nothing of its items; a batch that goes has none. -/
theorem acknowledgeBroadcastCompleteNotification_cases (hs : s.Corresponds) {batchId : String}
    {date : Date} (h : s.acknowledgeBroadcastCompleteNotification batchId date = .ok s') :
    s.Moves Steady s' [] ∨
      (s.Shrinks s' ∧ ∀ b ∈ s.batches, b.items ≠ [] → b ∈ s'.batches) := by
  simp only [acknowledgeBroadcastCompleteNotification, bind_eq_ok, orError_eq_ok, ensure_eq_ok,
    pure_eq_ok] at h
  obtain ⟨batch, hbatch, _, -, rfl⟩ := h
  have hunique := pairwise_batchId hs.batchIds batchId
  by_cases hempty : batch.items = [] ∧ batch.nextProofHeight = none
  · have hother : ∀ b ∈ s.batches, b.items ≠ [] →
        b.batchId ≠ batchId := by
      intro b hb hne heq
      rw [eq_of_find?_eq_some hunique hbatch hb (decide_eq_true heq)] at hne
      exact hne hempty.1
    refine .inr ⟨eraseP_shrinks (if_pos hempty) rfl fun r hr heq => ?_, fun b hb hne => ?_⟩
    · obtain ⟨b, hb, i, hi, hof, -⟩ := hs.present r hr
      exact hother b hb (List.ne_nil_of_mem hi) (hof.batchId.symm.trans heq)
    · simp only [hempty, and_self, if_true]
      exact mem_eraseP_batchId (hother b hb hne) hb
  · refine .inl (Moves.of_map ((if_neg hempty).trans (modifyFirst_eq_map hunique)) rfl ?_)
    intro b hb
    have hstay : BatchMove Steady [] b b :=
      BatchMove.refl_of_ne (fun item _ => Steady.refl item) (by simp)
    split_ifs with hp
    · obtain rfl := eq_of_find?_eq_some hunique hbatch hb hp
      exact ⟨rfl, rfl, rfl, rfl, hstay.items⟩
    · exact hstay

end Snapshot

end VizorWallet.Outbox
