import VizorWallet.Outbox.Snapshot
import Mathlib.Data.List.Forall2
import Mathlib.Data.List.Flatten
import Mathlib.Data.List.Nodup

/-!
# What the operations change

Operations that neither stage nor remove anything move the items one by one and append the
receipts of the items that they settle. Every such operation is described once, and the invariants
of the outbox use the descriptions only.

## Main definitions

* `ItemMove`, `BatchMove`, `Snapshot.Moves` — what happens to an item, a batch, a snapshot.
* `Item.attempts` — the attempts that an item records.
* `Steady`, `Submits`, `Cancels` — what happens to the attempts.
-/

namespace VizorWallet.Outbox

/-- The status of an item with a receipt of this outcome. -/
def ReceiptOutcome.status : ReceiptOutcome → ItemStatus
  | .accepted | .acceptedEquivalent => .acceptedAwaitingReconciliation
  | .rejected => .rejectedAwaitingReconciliation
  | .expired => .expiredAwaitingReconciliation
  | .needsResign => .needsResignAwaitingReconciliation

/-- The item waits for the wallet to read its receipt. -/
def ItemStatus.isAwaiting : ItemStatus → Bool
  | .staged | .armed | .submitting => false
  | _ => true

@[simp] theorem isAwaiting_status (outcome : ReceiptOutcome) : outcome.status.isAwaiting := by
  cases outcome <;> rfl

/-- The status alone shows an attempt. -/
def ItemStatus.isAttempt : ItemStatus → Bool
  | .submitting | .acceptedAwaitingReconciliation | .rejectedAwaitingReconciliation => true
  | _ => false

/-- The attempts that an item records. -/
def Item.attempts (item : Item) : ℕ :=
  item.attemptCount + if item.status.isAttempt then 1 else 0

/-- The item identifiers of a snapshot. -/
def Snapshot.itemIds (s : Snapshot) : List String :=
  s.batches.flatMap fun batch => batch.items.map Item.itemId

/-! ## Moves -/

/-- What happens to an item of a batch when `R` is recorded. -/
structure ItemMove (R : List Receipt) (batchId : String) (item item' : Item) : Prop where
  itemId : item'.itemId = item.itemId
  txidHex : item'.txidHex = item.txidHex
  rawTransaction : item'.rawTransaction = item.rawTransaction
  expiryHeight : item'.expiryHeight = item.expiryHeight
  awaiting : item.status.isAwaiting → item'.status = item.status
  recorded : item'.status.isAwaiting → item.status.isAwaiting ∨
    ∃ r ∈ R, r.itemId = item.itemId ∧ r.batchId = batchId
  settled : ∀ r ∈ R, r.itemId = item.itemId →
    item'.status = r.outcome.status ∧ r.batchId = batchId

/-- What happens to a batch; the attempts of an item change by `δ`. -/
structure BatchMove (δ : Item → Item → Prop) (R : List Receipt) (batch batch' : Batch) :
    Prop where
  batchId : batch'.batchId = batch.batchId
  network : batch'.network = batch.network
  accountUuid : batch'.accountUuid = batch.accountUuid
  runId : batch'.runId = batch.runId
  items : List.Forall₂ (fun item item' => ItemMove R batch.batchId item item' ∧ δ item item')
    batch.items batch'.items

/-- A receipt is about an item of a batch. -/
structure Receipt.IsOf (r : Receipt) (batch : Batch) (item : Item) : Prop where
  receiptId : r.receiptId = batch.batchId ++ ":" ++ item.itemId ++ ":" ++ r.outcome.rawValue
  batchId : r.batchId = batch.batchId
  itemId : r.itemId = item.itemId
  network : r.network = batch.network
  accountUuid : r.accountUuid = batch.accountUuid
  runId : r.runId = batch.runId
  txidHex : r.txidHex = item.txidHex

/-- What happens to a snapshot. -/
structure Snapshot.Moves (δ : Item → Item → Prop) (s s' : Snapshot) (R : List Receipt) :
    Prop where
  batches : List.Forall₂ (BatchMove δ R) s.batches s'.batches
  receipts : s'.receipts = s.receipts ++ R
  nodup : (R.map Receipt.itemId).Nodup
  source : ∀ r ∈ R, ∃ batch ∈ s.batches, ∃ item ∈ batch.items, r.IsOf batch item ∧
    item.status.isAwaiting = false

/-- No attempt begins and none is taken back. -/
structure Steady (item item' : Item) : Prop where
  attempts : item'.attempts = item.attempts
  submitting : item'.status = .submitting → item.status = .submitting

/-- One item begins an attempt. -/
structure Submits (itemId : String) (item item' : Item) : Prop where
  attempts : item'.attempts = item.attempts + if item.itemId = itemId then 1 else 0
  submitting : item'.status = .submitting → item.status = .submitting ∨ item.itemId = itemId

/-- One item takes its attempt back. -/
structure Cancels (itemId : String) (item item' : Item) : Prop where
  attempts : item.attempts = item'.attempts + if item.itemId = itemId then 1 else 0
  submitting : item'.status = .submitting → item.status = .submitting

section Lemmas

variable {δ : Item → Item → Prop} {R : List Receipt} {batch batch' : Batch} {item item' : Item}
  {s s' : Snapshot}

theorem isOf_makeReceipt {outcome : ReceiptOutcome} {remoteHeight : ℕ} {code : Option ℤ}
    {message : Option String} {updates : List ScheduleUpdate} {date : Date} :
    (makeReceipt batch item outcome remoteHeight code message updates date).IsOf batch item :=
  ⟨rfl, rfl, rfl, rfl, rfl, rfl, rfl⟩

theorem Steady.refl (item : Item) : Steady item item := ⟨rfl, id⟩

theorem Submits.refl_of_ne {itemId : String} (h : item.itemId ≠ itemId) :
    Submits itemId item item :=
  ⟨by simp [h], Or.inl⟩

theorem Cancels.refl_of_ne {itemId : String} (h : item.itemId ≠ itemId) :
    Cancels itemId item item :=
  ⟨by simp [h], id⟩

/-- An item that no receipt of `R` is about stays as it is. -/
theorem ItemMove.refl_of_ne {batchId : String} (h : ∀ r ∈ R, r.itemId ≠ item.itemId) :
    ItemMove R batchId item item where
  itemId := rfl
  txidHex := rfl
  rawTransaction := rfl
  expiryHeight := rfl
  awaiting _ := rfl
  recorded := Or.inl
  settled r hr heq := absurd heq (h r hr)

theorem BatchMove.refl_of_ne (hδ : ∀ item ∈ batch.items, δ item item)
    (h : ∀ r ∈ R, ∀ item ∈ batch.items, r.itemId ≠ item.itemId) : BatchMove δ R batch batch where
  batchId := rfl
  network := rfl
  accountUuid := rfl
  runId := rfl
  items := List.forall₂_same.2 fun item hitem =>
    ⟨ItemMove.refl_of_ne fun r hr => h r hr item hitem, hδ item hitem⟩

theorem Snapshot.Moves.of_map {g : Batch → Batch} (hbatches : s'.batches = s.batches.map g)
    (hreceipts : s'.receipts = s.receipts) (hmove : ∀ b ∈ s.batches, BatchMove δ [] b (g b)) :
    s.Moves δ s' [] where
  batches := by
    rw [hbatches, List.forall₂_map_right_iff]
    exact List.forall₂_same.2 hmove
  receipts := by rw [hreceipts, List.append_nil]
  nodup := List.nodup_nil
  source := by simp

/-- One batch is replaced. -/
theorem Snapshot.Moves.of_modifyFirst {p : Batch → Bool}
    (hunique : s.batches.Pairwise fun a b => p a → ¬ p b)
    (hfind : s.batches.find? p = some batch)
    (hbatches : s'.batches = modifyFirst p (fun _ => batch') s.batches)
    (hreceipts : s'.receipts = s.receipts ++ R) (hnodup : (R.map Receipt.itemId).Nodup)
    (hsource : ∀ r ∈ R, ∃ batch ∈ s.batches, ∃ item ∈ batch.items, r.IsOf batch item ∧
      item.status.isAwaiting = false)
    (hmove : BatchMove δ R batch batch')
    (hother : ∀ b ∈ s.batches, ¬ p b → BatchMove δ R b b) : s.Moves δ s' R where
  batches := by
    rw [hbatches, modifyFirst_eq_map hunique, List.forall₂_map_right_iff]
    refine List.forall₂_same.2 fun b hb => ?_
    by_cases hp : p b
    · rw [if_pos hp, eq_of_find?_eq_some hunique hfind hb hp]
      exact hmove
    · rw [if_neg hp]
      exact hother b hb hp
  receipts := hreceipts
  nodup := hnodup
  source := hsource

end Lemmas

/-! ## Identifiers -/

namespace Snapshot

variable {s : Snapshot} {batch batch' : Batch} {item item' : Item} {itemId : String}

theorem items_nodup (h : s.itemIds.Nodup) (hb : batch ∈ s.batches) :
    (batch.items.map Item.itemId).Nodup :=
  (List.nodup_flatMap.1 h).1 batch hb

/-- An identifier belongs to a single item of a batch. -/
theorem item_unique (h : s.itemIds.Nodup) (hb : batch ∈ s.batches) (hi : item ∈ batch.items)
    (hi' : item' ∈ batch.items) (heq : item.itemId = item'.itemId) : item = item' :=
  List.inj_on_of_nodup_map (items_nodup h hb) hi hi' heq

/-- An identifier belongs to a single batch. -/
theorem batch_unique (h : s.itemIds.Nodup) (hb : batch ∈ s.batches) (hb' : batch' ∈ s.batches)
    (hi : item ∈ batch.items) (hi' : item' ∈ batch'.items) (heq : item.itemId = item'.itemId) :
    batch = batch' := by
  by_contra hne
  have hsymm : Std.Symm (Function.onFun List.Disjoint fun b : Batch => b.items.map Item.itemId) :=
    ⟨fun _ _ => List.Disjoint.symm⟩
  have hdisjoint := (List.nodup_flatMap.1 h).2.forall hb hb' hne
  have hmem : item.itemId ∈ batch.items.map Item.itemId := List.mem_map_of_mem hi
  have hmem' : item.itemId ∈ batch'.items.map Item.itemId := heq ▸ List.mem_map_of_mem hi'
  exact hdisjoint hmem hmem'

theorem hasItem_iff : hasItem itemId batch ↔ ∃ item ∈ batch.items, item.itemId = itemId := by
  simp [hasItem]

/-- At most one batch has an item. -/
theorem pairwise_hasItem (h : s.itemIds.Nodup) (itemId : String) :
    s.batches.Pairwise fun a b => hasItem itemId a → ¬ hasItem itemId b := by
  refine (List.nodup_flatMap.1 h).2.imp fun {a b} hdisjoint ha hb => ?_
  obtain ⟨i, hi, rfl⟩ := hasItem_iff.1 ha
  obtain ⟨i', hi', heq⟩ := hasItem_iff.1 hb
  exact hdisjoint (List.mem_map_of_mem hi) (heq ▸ List.mem_map_of_mem hi')

theorem pairwise_batchId (h : (s.batches.map Batch.batchId).Nodup) (batchId : String) :
    s.batches.Pairwise fun a b =>
      decide (a.batchId = batchId) → ¬ decide (b.batchId = batchId) := by
  refine (List.pairwise_map.1 h).imp fun {a b} hne ha hb => ?_
  exact hne ((of_decide_eq_true ha).trans (of_decide_eq_true hb).symm)

theorem pairwise_itemId (h : (batch.items.map Item.itemId).Nodup) (itemId : String) :
    batch.items.Pairwise fun a b => decide (a.itemId = itemId) → ¬ decide (b.itemId = itemId) := by
  refine (List.pairwise_map.1 h).imp fun {a b} hne ha hb => ?_
  exact hne ((of_decide_eq_true ha).trans (of_decide_eq_true hb).symm)

/-- Where an item is. -/
theorem itemLocation_eq_ok {location : Batch × Item} (h : s.itemLocation itemId = .ok location) :
    s.batches.find? (hasItem itemId) = some location.1 ∧
      location.1.items.find? (·.itemId = itemId) = some location.2 := by
  simp only [itemLocation, bind_eq_ok, orError_eq_ok, pure_eq_ok] at h
  obtain ⟨batch, hbatch, item, hitem, rfl⟩ := h
  exact ⟨hbatch, hitem⟩

end Snapshot

/-! ## The operations -/

/-- An item whose status changes between statuses without a receipt. -/
theorem ItemMove.of_status {batchId : String} {item item' : Item}
    (hid : item'.itemId = item.itemId) (htx : item'.txidHex = item.txidHex)
    (hraw : item'.rawTransaction = item.rawTransaction)
    (hexpiry : item'.expiryHeight = item.expiryHeight)
    (hold : item.status.isAwaiting = false) (hnew : item'.status.isAwaiting = false) :
    ItemMove [] batchId item item' where
  itemId := hid
  txidHex := htx
  rawTransaction := hraw
  expiryHeight := hexpiry
  awaiting h := by simp [hold] at h
  recorded h := by simp [hnew] at h
  settled := by simp

/-- An item that a receipt settles. -/
theorem ItemMove.of_receipt {R : List Receipt} {r : Receipt} {batchId : String}
    {item item' : Item} (hid : item'.itemId = item.itemId) (htx : item'.txidHex = item.txidHex)
    (hraw : item'.rawTransaction = item.rawTransaction)
    (hexpiry : item'.expiryHeight = item.expiryHeight)
    (hold : item.status.isAwaiting = false) (hr : r ∈ R)
    (hunique : ∀ r' ∈ R, r'.itemId = item.itemId → r' = r) (hitem : r.itemId = item.itemId)
    (hbatch : r.batchId = batchId) (hstatus : item'.status = r.outcome.status) :
    ItemMove R batchId item item' where
  itemId := hid
  txidHex := htx
  rawTransaction := hraw
  expiryHeight := hexpiry
  awaiting h := by simp [hold] at h
  recorded _ := .inr ⟨r, hr, hitem, hbatch⟩
  settled r' hr' heq := by
    obtain rfl := hunique r' hr' heq
    exact ⟨hstatus, hbatch⟩

theorem BatchMove.of_map {δ : Item → Item → Prop} {R : List Receipt} {batch batch' : Batch}
    {φ : Item → Item} (hbatchId : batch'.batchId = batch.batchId)
    (hnetwork : batch'.network = batch.network)
    (haccount : batch'.accountUuid = batch.accountUuid) (hrun : batch'.runId = batch.runId)
    (hitems : batch'.items = batch.items.map φ)
    (hmove : ∀ item ∈ batch.items, ItemMove R batch.batchId item (φ item) ∧ δ item (φ item)) :
    BatchMove δ R batch batch' where
  batchId := hbatchId
  network := hnetwork
  accountUuid := haccount
  runId := hrun
  items := by
    rw [hitems, List.forall₂_map_right_iff]
    exact List.forall₂_same.2 hmove

namespace Snapshot

variable {s s' : Snapshot} {itemId endpoint : String} {date : Date} {remoteHeight : ℕ}

theorem Moves.of_same (hbatches : s'.batches = s.batches) (hreceipts : s'.receipts = s.receipts) :
    s.Moves Steady s' [] :=
  .of_map (by rw [hbatches, List.map_id']) hreceipts fun b _ =>
    BatchMove.refl_of_ne (fun item _ => Steady.refl item) (by simp)

theorem armBatch_moves (hids : (s.batches.map Batch.batchId).Nodup) {batchId : String}
    {expectedDigests : List (String × String)}
    (h : s.armBatch batchId expectedDigests date = .ok s') : s.Moves Steady s' [] := by
  simp only [armBatch, bind_eq_ok, orError_eq_ok, ensure_eq_ok, pure_eq_ok] at h
  obtain ⟨batch, hbatch, _, -, rfl⟩ := h
  refine Moves.of_modifyFirst (pairwise_batchId hids batchId) hbatch rfl (by simp) (by simp)
    (by simp) ?_ fun b _ _ => BatchMove.refl_of_ne (fun item _ => Steady.refl item) (by simp)
  refine BatchMove.of_map rfl rfl rfl rfl rfl fun item _ => ?_
  by_cases hstaged : item.itemId ∈ expectedDigests.map Prod.fst ∧ item.status = .staged
  · rw [if_pos hstaged]
    exact ⟨.of_status rfl rfl rfl rfl (by rw [hstaged.2]; rfl) rfl,
      by simp [Item.attempts, hstaged.2, ItemStatus.isAttempt], by simp⟩
  · rw [if_neg hstaged]
    exact ⟨ItemMove.refl_of_ne (by simp), Steady.refl item⟩

theorem steady_retry {item : Item} {error : String} (h : item.status = .submitting) :
    Steady item (item.retry error date) where
  attempts := by simp [Item.attempts, Item.retry, h, ItemStatus.isAttempt]
  submitting := by simp [Item.retry]

theorem itemMove_retry {item : Item} {error batchId : String} (h : item.status = .submitting) :
    ItemMove [] batchId item (item.retry error date) :=
  .of_status rfl rfl rfl rfl (by rw [h]; rfl) rfl

theorem recoverItem_move (batchId : String) (item : Item) :
    ItemMove [] batchId item (recoverItem date item) ∧ Steady item (recoverItem date item) := by
  unfold recoverItem
  split
  case h_1 hstatus => exact ⟨itemMove_retry hstatus, steady_retry hstatus⟩
  case h_2 hstatus =>
    exact ⟨.of_status rfl rfl rfl rfl (by rw [hstatus]; rfl) rfl,
      by simp [Item.attempts, hstatus, ItemStatus.isAttempt], by simp⟩
  case h_3 => exact ⟨ItemMove.refl_of_ne (by simp), Steady.refl item⟩

theorem recoverBatch_moves (hids : (s.batches.map Batch.batchId).Nodup)
    {batchId network accountUuid runId lightwalletdUrl : String} {expectedTxids : List String}
    {found : Bool}
    (h : s.recoverBatch batchId network accountUuid runId expectedTxids lightwalletdUrl date =
      .ok (s', found)) : s.Moves Steady s' [] := by
  unfold recoverBatch at h
  obtain ⟨_, -, h⟩ := bind_eq_ok.1 h
  cases hfind : s.batches.find? (·.batchId = batchId) with
  | none =>
    simp only [hfind, pure_eq_ok, Prod.mk.injEq] at h
    obtain ⟨rfl, -⟩ := h
    exact Moves.of_same rfl rfl
  | some batch =>
    simp only [hfind, bind_eq_ok, ensure_eq_ok, pure_eq_ok, Prod.mk.injEq] at h
    obtain ⟨_, -, rfl, -⟩ := h
    refine Moves.of_modifyFirst (pairwise_batchId hids batchId) hfind rfl (by simp) (by simp)
      (by simp) ?_ fun b _ _ => BatchMove.refl_of_ne (fun item _ => Steady.refl item) (by simp)
    exact BatchMove.of_map rfl rfl rfl rfl rfl fun item _ => recoverItem_move batch.batchId item

theorem recoverInterruptedSubmissions_moves :
    s.Moves Steady (s.recoverInterruptedSubmissions date) [] := by
  refine Moves.of_map rfl rfl fun b _ => BatchMove.of_map rfl rfl rfl rfl rfl fun item _ => ?_
  by_cases hstatus : item.status = .submitting
  · rw [if_pos hstatus]
    exact ⟨itemMove_retry hstatus, steady_retry hstatus⟩
  · rw [if_neg hstatus]
    exact ⟨ItemMove.refl_of_ne (by simp), Steady.refl item⟩

theorem mem_settlements {batch : Batch} {test : Item → Bool} {outcome : ReceiptOutcome}
    {message : Option String} {r : Receipt} :
    r ∈ batch.settlements test outcome remoteHeight message date ↔
      ∃ item ∈ batch.items, test item ∧
        makeReceipt batch item outcome remoteHeight none message [] date = r := by
  simp [Batch.settlements, and_assoc]

/-- Settling the armed items that satisfy a test. -/
theorem settle_moves (hids : s.itemIds.Nodup) {test : Batch → Item → Bool}
    (htest : ∀ b i, test b i → i.status = .armed) {outcome : ReceiptOutcome}
    (hattempt : outcome.status.isAttempt = false) {message : Option String}
    (hbatches : s'.batches = s.batches.map fun b => b.settle (test b) outcome.status)
    (hreceipts : s'.receipts = s.receipts ++ s.batches.flatMap fun b =>
      b.settlements (test b) outcome remoteHeight message date) :
    s.Moves Steady s' (s.batches.flatMap fun b =>
      b.settlements (test b) outcome remoteHeight message date) where
  batches := by
    rw [hbatches, List.forall₂_map_right_iff]
    refine List.forall₂_same.2 fun b hb => BatchMove.of_map rfl rfl rfl rfl rfl fun i hi => ?_
    -- a receipt about the item is the receipt of the item
    have hreceipt : ∀ r ∈ s.batches.flatMap (fun b =>
        b.settlements (test b) outcome remoteHeight message date), r.itemId = i.itemId →
        test b i ∧ makeReceipt b i outcome remoteHeight none message [] date = r := by
      intro r hr heq
      obtain ⟨b', hb', hr⟩ := List.mem_flatMap.1 hr
      obtain ⟨i', hi', ht, rfl⟩ := mem_settlements.1 hr
      obtain rfl := batch_unique hids hb' hb hi' hi heq
      obtain rfl := item_unique hids hb hi' hi heq
      exact ⟨ht, rfl⟩
    by_cases ht : test b i
    · have harmed := htest b i ht
      simp only [ht, if_true]
      refine ⟨ItemMove.of_receipt rfl rfl rfl rfl (by rw [harmed]; rfl)
        (List.mem_flatMap.2 ⟨b, hb, mem_settlements.2 ⟨i, hi, ht, rfl⟩⟩)
        (fun r hr heq => ((hreceipt r hr heq).2).symm) rfl rfl rfl, ?_, ?_⟩
      · have hold : i.status.isAttempt = false := by rw [harmed]; rfl
        simp [Item.attempts, hold, hattempt]
      · intro hsubmitting
        simp only at hsubmitting
        rw [hsubmitting] at hattempt
        simp [ItemStatus.isAttempt] at hattempt
    · rw [if_neg ht]
      exact ⟨ItemMove.refl_of_ne fun r hr heq => ht (hreceipt r hr heq).1, Steady.refl i⟩
  receipts := hreceipts
  nodup := by
    refine List.Nodup.sublist ?_ hids
    rw [List.map_flatMap]
    refine List.Sublist.flatMap_right _ fun b _ => ?_
    have hmap : (b.settlements (test b) outcome remoteHeight message date).map Receipt.itemId =
        (b.items.filter (test b)).map Item.itemId := by
      simp [Batch.settlements, makeReceipt]
    rw [hmap]
    exact List.filter_sublist.map _
  source r hr := by
    obtain ⟨b, hb, hr⟩ := List.mem_flatMap.1 hr
    obtain ⟨i, hi, ht, rfl⟩ := mem_settlements.1 hr
    exact ⟨b, hb, i, hi, isOf_makeReceipt, by rw [htest b i ht]; rfl⟩

theorem expireItems_moves (hids : s.itemIds.Nodup) :
    ∃ R, s.Moves Steady (s.expireItems remoteHeight endpoint date) R :=
  ⟨_, settle_moves hids (fun _ _ h => (of_decide_eq_true h).2.1) rfl rfl rfl⟩

theorem markDueItemsNeedingResign_moves (hids : s.itemIds.Nodup) :
    ∃ R, s.Moves Steady (s.markDueItemsNeedingResign remoteHeight endpoint date) R := by
  unfold markDueItemsNeedingResign
  cases canonicalExpiryHeight remoteHeight with
  | none => exact ⟨[], Moves.of_same rfl rfl⟩
  | some expiry =>
    exact ⟨_, settle_moves hids (fun _ _ h => (of_decide_eq_true h).2.1) rfl rfl rfl⟩

/-- The located item becomes `item'`. -/
theorem replaceItem_moves (hids : s.itemIds.Nodup) {δ : Item → Item → Prop} {batch : Batch}
    {item item' : Item} (hlocation : s.itemLocation itemId = .ok (batch, item))
    (hself : ∀ i : Item, i.itemId ≠ itemId → δ i i)
    (hmove : ItemMove [] batch.batchId item item' ∧ δ item item') :
    s.Moves δ (s.replaceBatch itemId (batch.replaceItem itemId item')) [] := by
  obtain ⟨hbatch, hitem⟩ := itemLocation_eq_ok hlocation
  have hmem : batch ∈ s.batches := List.mem_of_find?_eq_some hbatch
  have hunique := pairwise_itemId (items_nodup hids hmem) itemId
  refine Moves.of_modifyFirst (pairwise_hasItem hids itemId) hbatch rfl (by simp [replaceBatch])
    (by simp) (by simp) ?_ fun b hb hnot => ?_
  · refine BatchMove.of_map rfl rfl rfl rfl (modifyFirst_eq_map hunique) fun i hi => ?_
    by_cases hi' : i.itemId = itemId
    · rw [if_pos (by simpa using hi'),
        eq_of_find?_eq_some hunique hitem hi (decide_eq_true hi')]
      exact hmove
    · rw [if_neg (by simpa using hi')]
      exact ⟨ItemMove.refl_of_ne (by simp), hself i hi'⟩
  · refine BatchMove.refl_of_ne (fun i hi => hself i fun heq => ?_) (by simp)
    exact hnot (hasItem_iff.2 ⟨i, hi, heq⟩)

theorem itemLocation_itemId {batch : Batch} {item : Item}
    (h : s.itemLocation itemId = .ok (batch, item)) :
    batch ∈ s.batches ∧ item ∈ batch.items ∧ item.itemId = itemId := by
  obtain ⟨hbatch, hitem⟩ := itemLocation_eq_ok h
  exact ⟨List.mem_of_find?_eq_some hbatch, List.mem_of_find?_eq_some hitem,
    by simpa using List.find?_some hitem⟩

theorem beginSubmission_moves (hids : s.itemIds.Nodup) {attemptId : String}
    (h : s.beginSubmission itemId attemptId date = .ok s') :
    s.Moves (Submits itemId) s' [] := by
  simp only [beginSubmission, bind_eq_ok, ensure_eq_ok, pure_eq_ok] at h
  obtain ⟨⟨batch, item⟩, hlocation, _, hstatus, rfl⟩ := h
  obtain ⟨-, -, hid⟩ := itemLocation_itemId hlocation
  have hstatus : item.status = .armed := hstatus
  have hold : item.status.isAttempt = false := by rw [hstatus]; rfl
  refine replaceItem_moves hids hlocation (fun i hi => Submits.refl_of_ne hi)
    ⟨.of_status rfl rfl rfl rfl (by rw [hstatus]; rfl) rfl, ?_, fun _ => .inr hid⟩
  simp only [Item.attempts, hold]
  simp [hid, ItemStatus.isAttempt]

theorem recordUncertain_moves (hids : s.itemIds.Nodup) {error : String}
    (h : s.recordUncertain itemId error date = .ok s') : s.Moves Steady s' [] := by
  simp only [recordUncertain, bind_eq_ok, ensure_eq_ok, pure_eq_ok] at h
  obtain ⟨⟨batch, item⟩, hlocation, _, hstatus, rfl⟩ := h
  exact replaceItem_moves hids hlocation (fun i _ => Steady.refl i)
    ⟨itemMove_retry hstatus, steady_retry hstatus⟩

theorem recordCancelledBeforeSubmission_moves (hids : s.itemIds.Nodup) {error : String}
    (h : s.recordCancelledBeforeSubmission itemId error = .ok s') :
    s.Moves (Cancels itemId) s' [] := by
  simp only [recordCancelledBeforeSubmission, bind_eq_ok, ensure_eq_ok, pure_eq_ok] at h
  obtain ⟨⟨batch, item⟩, hlocation, _, hstatus, rfl⟩ := h
  obtain ⟨-, -, hid⟩ := itemLocation_itemId hlocation
  have hstatus : item.status = .submitting := hstatus
  have hold : item.status.isAttempt = true := by rw [hstatus]; rfl
  refine replaceItem_moves hids hlocation (fun i hi => Cancels.refl_of_ne hi)
    ⟨.of_status rfl rfl rfl rfl (by rw [hstatus]; rfl) rfl, ?_, by simp⟩
  simp only [Item.attempts, hold]
  simp [hid, ItemStatus.isAttempt]

end Snapshot

/-- Only the schedule of an item changes. -/
structure Rescheduled (item item' : Item) : Prop where
  itemId : item'.itemId = item.itemId
  txidHex : item'.txidHex = item.txidHex
  rawTransaction : item'.rawTransaction = item.rawTransaction
  expiryHeight : item'.expiryHeight = item.expiryHeight
  status : item'.status = item.status
  attemptCount : item'.attemptCount = item.attemptCount

theorem Rescheduled.refl (item : Item) : Rescheduled item item := ⟨rfl, rfl, rfl, rfl, rfl, rfl⟩

theorem Rescheduled.trans {a b c' : Item} (h : Rescheduled a b) (h' : Rescheduled b c') :
    Rescheduled a c' :=
  ⟨h'.itemId.trans h.itemId, h'.txidHex.trans h.txidHex,
    h'.rawTransaction.trans h.rawTransaction, h'.expiryHeight.trans h.expiryHeight,
    h'.status.trans h.status, h'.attemptCount.trans h.attemptCount⟩

/-- The batch is the same but for the schedules of its items. -/
structure Batch.SameBut (batch batch' : Batch) : Prop where
  batchId : batch'.batchId = batch.batchId
  network : batch'.network = batch.network
  accountUuid : batch'.accountUuid = batch.accountUuid
  runId : batch'.runId = batch.runId
  items : List.Forall₂ Rescheduled batch.items batch'.items

theorem forall₂_modify_rescheduled {f : Item → Item} (hf : ∀ item, Rescheduled item (f item))
    (items : List Item) (index : ℕ) :
    List.Forall₂ Rescheduled items (items.modify index f) := by
  induction items generalizing index with
  | nil => simp
  | cons item items ih =>
    cases index with
    | zero => exact .cons (hf item) (List.forall₂_same.2 fun i _ => Rescheduled.refl i)
    | succ index => exact .cons (Rescheduled.refl item) (ih index)

theorem forall₂_rescheduled_trans {a b c' : List Item} (h : List.Forall₂ Rescheduled a b)
    (h' : List.Forall₂ Rescheduled b c') : List.Forall₂ Rescheduled a c' := by
  induction h generalizing c' with
  | nil => exact h'
  | cons hhead _ ih =>
    cases h' with
    | cons hhead' htail' => exact .cons (hhead.trans hhead') (ih htail')

theorem rescheduleFrom_sameBut {random : Random} {remoteHeight draw elapsed : ℕ}
    {batch batch' : Batch} {order : List ℕ} {updates : List ScheduleUpdate}
    (h : batch.rescheduleFrom random remoteHeight draw elapsed order = .ok (batch', updates)) :
    batch.SameBut batch' := by
  induction order generalizing batch draw elapsed updates with
  | nil =>
    simp only [Batch.rescheduleFrom, Except.ok.injEq, Prod.mk.injEq] at h
    obtain ⟨rfl, -⟩ := h
    exact ⟨rfl, rfl, rfl, rfl, List.forall₂_same.2 fun i _ => Rescheduled.refl i⟩
  | cons index order ih =>
    simp only [Batch.rescheduleFrom, bind_eq_ok, orError_eq_ok, ensure_eq_ok, pure_eq_ok] at h
    obtain ⟨item, -, _, -, _, -, ⟨final, rest⟩, hrest, heq⟩ := h
    obtain ⟨rfl, -⟩ := Prod.mk.inj heq
    obtain ⟨hbatchId, hnetwork, haccount, hrun, hitems⟩ := ih hrest
    refine ⟨hbatchId, hnetwork, haccount, hrun, forall₂_rescheduled_trans ?_ hitems⟩
    apply forall₂_modify_rescheduled
    exact fun item => ⟨rfl, rfl, rfl, rfl, rfl, rfl⟩

theorem rescheduleOverdueItems_sameBut {batch batch' : Batch} {itemId : String} {remoteHeight : ℕ}
    {random : Random} {updates : List ScheduleUpdate}
    (h : batch.rescheduleOverdueItems itemId remoteHeight random = .ok (batch', updates)) :
    batch.SameBut batch' := by
  simp only [Batch.rescheduleOverdueItems, bind_eq_ok, ensure_eq_ok] at h
  obtain ⟨_, -, h⟩ := h
  exact rescheduleFrom_sameBut h

namespace Snapshot

variable {s s' : Snapshot} {itemId : String} {date : Date} {remoteHeight : ℕ}

/-- The located item is settled by a receipt. -/
theorem settleItem_moves (hids : s.itemIds.Nodup) {batch final : Batch} {item item' : Item}
    {r : Receipt} (hlocation : s.itemLocation itemId = .ok (batch, item))
    (hsubmitting : item.status = .submitting) (hid : item'.itemId = item.itemId)
    (htx : item'.txidHex = item.txidHex) (hraw : item'.rawTransaction = item.rawTransaction)
    (hexpiry : item'.expiryHeight = item.expiryHeight)
    (hcount : item'.attemptCount = item.attemptCount) (hstatus : item'.status = r.outcome.status)
    (hattempt : r.outcome.status.isAttempt) (hsame : (batch.replaceItem itemId item').SameBut final)
    (hof : r.IsOf batch item)
    (hbatches : s'.batches = modifyFirst (hasItem itemId) (fun _ => final) s.batches)
    (hreceipts : s'.receipts = s.receipts ++ [r]) : s.Moves Steady s' [r] := by
  obtain ⟨hbatch, hitem⟩ := itemLocation_eq_ok hlocation
  obtain ⟨hmem, himem, hiid⟩ := itemLocation_itemId hlocation
  have hunique := pairwise_itemId (items_nodup hids hmem) itemId
  have hnot : item.status.isAwaiting = false := by rw [hsubmitting]; rfl
  have hr : r.itemId = itemId := hof.itemId.trans hiid
  have hrb := hof.batchId
  refine Moves.of_modifyFirst (pairwise_hasItem hids itemId) hbatch hbatches hreceipts (by simp)
    ?_ ?_ fun b hb hnothas => ?_
  · intro r' hr'
    obtain rfl := List.mem_singleton.1 hr'
    exact ⟨batch, hmem, item, himem, hof, hnot⟩
  · refine ⟨hsame.batchId, hsame.network, hsame.accountUuid, hsame.runId, ?_⟩
    have hitems := hsame.items
    rw [Batch.replaceItem, modifyFirst_eq_map hunique, List.forall₂_map_left_iff] at hitems
    have hboth := (List.forall₂_and_left batch.items final.items).2 ⟨fun i hi => hi, hitems⟩
    refine hboth.imp fun i i' hpair => ?_
    obtain ⟨hi, hmove⟩ := hpair
    by_cases hi' : i.itemId = itemId
    · obtain rfl := eq_of_find?_eq_some hunique hitem hi (decide_eq_true hi')
      rw [if_pos (by simpa using hi')] at hmove
      have hnew : i'.status = r.outcome.status := hmove.status.trans hstatus
      refine ⟨ItemMove.of_receipt (hmove.itemId.trans hid) (hmove.txidHex.trans htx)
        (hmove.rawTransaction.trans hraw) (hmove.expiryHeight.trans hexpiry) hnot
        (List.mem_singleton.2 rfl) (fun _ h _ => List.mem_singleton.1 h) (hr.trans hi'.symm) hrb
        hnew, ?_, ?_⟩
      · rw [Item.attempts, Item.attempts, hnew, hmove.attemptCount, hcount, hattempt, hsubmitting]
        rfl
      · exact fun _ => hsubmitting
    · rw [if_neg (by simpa using hi')] at hmove
      refine ⟨⟨hmove.itemId, hmove.txidHex, hmove.rawTransaction, hmove.expiryHeight,
        fun _ => hmove.status, fun h => .inl (hmove.status ▸ h), ?_⟩, ?_, ?_⟩
      · intro r' hr' heq
        obtain rfl := List.mem_singleton.1 hr'
        exact absurd (heq.symm.trans hr) hi'
      · rw [Item.attempts, Item.attempts, hmove.status, hmove.attemptCount]
      · exact fun h => hmove.status.symm.trans h
  · refine BatchMove.refl_of_ne (fun i _ => Steady.refl i) fun r' hr' i hi heq => ?_
    obtain rfl := List.mem_singleton.1 hr'
    exact hnothas (hasItem_iff.2 ⟨i, hi, heq.symm.trans hr⟩)

theorem recordAccepted_moves (hids : s.itemIds.Nodup) {equivalent : Bool} {code : ℤ}
    {message : String} {random : Random}
    (h : s.recordAccepted itemId equivalent remoteHeight code message date random = .ok s') :
    ∃ r, s.Moves Steady s' [r] := by
  simp only [recordAccepted, bind_eq_ok, ensure_eq_ok, pure_eq_ok] at h
  obtain ⟨⟨batch, item⟩, hlocation, _, hstatus, ⟨final, updates⟩, hfinal, rfl⟩ := h
  have hsame := rescheduleOverdueItems_sameBut hfinal
  -- the receipt names the batch as it is after the rescheduling
  have hof : (makeReceipt final item (if equivalent then .acceptedEquivalent else .accepted)
      remoteHeight (some code) (some message) updates date).IsOf batch item := by
    refine ⟨?_, hsame.batchId, rfl, hsame.network, hsame.accountUuid, hsame.runId, rfl⟩
    simp only [makeReceipt, hsame.batchId]
    rfl
  refine ⟨_, settleItem_moves hids hlocation hstatus ?_ ?_ ?_ ?_ ?_ ?_ ?_ hsame hof rfl rfl⟩
  all_goals cases equivalent <;> rfl

theorem recordRejected_moves (hids : s.itemIds.Nodup) {code : ℤ} {message : String}
    (h : s.recordRejected itemId remoteHeight code message date = .ok s') :
    ∃ r, s.Moves Steady s' [r] := by
  simp only [recordRejected, bind_eq_ok, ensure_eq_ok, pure_eq_ok] at h
  obtain ⟨⟨batch, item⟩, hlocation, _, hstatus, rfl⟩ := h
  have hsame : ∀ b : Batch, b.SameBut { b with armedAt := none, nextProofHeight := none } :=
    fun b => ⟨rfl, rfl, rfl, rfl, List.forall₂_same.2 fun i _ => Rescheduled.refl i⟩
  refine ⟨_, settleItem_moves hids hlocation hstatus ?_ ?_ ?_ ?_ ?_ ?_ ?_ (hsame _) isOf_makeReceipt
    rfl rfl⟩
  all_goals rfl

theorem markBroadcastCompleteIfNeeded_moves (hids : (s.batches.map Batch.batchId).Nodup)
    {batchId : String} : s.Moves Steady (s.markBroadcastCompleteIfNeeded batchId date) [] := by
  refine Moves.of_map (modifyFirst_eq_map (pairwise_batchId hids batchId)) rfl fun b _ => ?_
  have hstay : BatchMove Steady [] b b :=
    BatchMove.refl_of_ne (fun item _ => Steady.refl item) (by simp)
  split_ifs
  · exact ⟨rfl, rfl, rfl, rfl, hstay.items⟩
  · exact hstay
  · exact hstay

end Snapshot

end VizorWallet.Outbox
