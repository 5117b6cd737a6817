import VizorWallet.Outbox.Runner

/-!
# Acknowledging receipts in parts

The app acknowledges the receipts that it could reconcile, so the receipts of one batch may be
acknowledged in several calls.

## Main definitions

* `Snapshot.Reconcilable` — receipts and items correspond.
* `Snapshot.OneSubmitting` — one item at most is submitting.
* `Snapshot.OrderIndependent` — acknowledging receipts at once or in parts is the same.
* `Snapshot.RetiresTogether` — a batch with a terminal and another receipt has nothing else.

## Main results

* `receipts_reconcilable` — every reachable snapshot is reconcilable, it is order independent
  exactly when its batches retire together, and one item at most is submitting when submissions
  begin alone, as those of the runner do.
* `left_over_item` — two receipts of one batch, acknowledged one after the other.
-/

namespace VizorWallet.Outbox

/-! ## Acknowledging in parts -/

namespace Snapshot

variable {s : Snapshot} {receiptIds rest : List String}

/-- An item waits for the wallet exactly when it has one receipt, which has its outcome, and the
batch and the item of every receipt are present. -/
structure Reconcilable (s : Snapshot) : Prop where
  awaiting_iff : ∀ batch ∈ s.batches, ∀ item ∈ batch.items, item.status.isAwaiting ↔
    ∃ r, (s.receipts.filter fun r => r.itemId = item.itemId) = [r] ∧
      r.outcome.status = item.status
  present : ∀ r ∈ s.receipts, ∃ batch ∈ s.batches, ∃ item ∈ batch.items, r.IsOf batch item

/-- One item at most is submitting. -/
def OneSubmitting (s : Snapshot) : Prop :=
  ∀ batch ∈ s.batches, ∀ item ∈ batch.items, ∀ batch' ∈ s.batches, ∀ item' ∈ batch'.items,
    item.status = .submitting → item'.status = .submitting → batch = batch' ∧ item = item'

/-- Acknowledging receipts in parts is acknowledging them at once. -/
def OrderIndependent (s : Snapshot) : Prop :=
  ∀ (first : List String) (parts : List (List String)),
    parts.foldl acknowledgeReceipts (s.acknowledgeReceipts first) =
      s.acknowledgeReceipts (first ++ parts.flatten)

/-- A batch with a terminal and another receipt has nothing without a receipt. -/
def RetiresTogether (s : Snapshot) : Prop :=
  ∀ batch ∈ s.batches,
    (∃ r ∈ s.receipts, r.batchId = batch.batchId ∧ r.outcome.isTerminal) →
    (∃ r ∈ s.receipts, r.batchId = batch.batchId ∧ ¬ r.outcome.isTerminal) →
    (∀ item ∈ batch.items, ∃ r ∈ s.receipts, r.itemId = item.itemId ∧
      r.batchId = batch.batchId) ∧
    batch.nextProofHeight = none ∧ batch.broadcastCompleteNotificationPendingAt = none

theorem Corresponds.eq_receipt (hs : s.Corresponds) {r r' : Receipt} (hr : r ∈ s.receipts)
    (hr' : r' ∈ s.receipts) (h : r.itemId = r'.itemId) : r = r' :=
  List.inj_on_of_nodup_map hs.receiptItems hr hr' h

/-- The receipt of an item has its outcome. -/
theorem Corresponds.status_eq (hs : s.Corresponds) {r : Receipt} {batch : Batch} {item : Item}
    (hr : r ∈ s.receipts) (hb : batch ∈ s.batches) (hi : item ∈ batch.items)
    (hid : r.itemId = item.itemId) : r.outcome.status = item.status := by
  obtain ⟨b, hb', i, hi', hof, hstatus⟩ := hs.present r hr
  have hids : i.itemId = item.itemId := hof.itemId.symm.trans hid
  obtain rfl := batch_unique hs.itemIds hb' hb hi' hi hids
  obtain rfl := item_unique hs.itemIds hb' hi' hi hids
  exact hstatus.symm

theorem Corresponds.reconcilable (hs : s.Corresponds) : s.Reconcilable where
  awaiting_iff b hb i hi := by
    constructor
    · intro hawaiting
      obtain ⟨r, hr, hof⟩ := hs.recorded b hb i hi hawaiting
      refine ⟨r, ?_, hs.status_eq hr hb hi hof.itemId⟩
      -- the receipts of the item are a list without repetition and with one member
      have hnodup : (s.receipts.filter fun r => r.itemId = i.itemId).Nodup :=
        (List.Nodup.of_map _ hs.receiptItems).filter _
      apply List.Perm.eq_singleton
      refine (List.perm_ext_iff_of_nodup hnodup (List.nodup_singleton r)).2 fun r' => ?_
      rw [List.mem_filter, List.mem_singleton]
      constructor
      · rintro ⟨hr', heq⟩
        exact hs.eq_receipt hr' hr ((of_decide_eq_true heq).trans hof.itemId.symm)
      · rintro rfl
        exact ⟨hr, decide_eq_true hof.itemId⟩
    · rintro ⟨r, -, hstatus⟩
      rw [← hstatus]
      exact isAwaiting_status _
  present r hr := by
    obtain ⟨b, hb, i, hi, hof, -⟩ := hs.present r hr
    exact ⟨b, hb, i, hi, hof⟩

theorem SubmittingOnly.oneSubmitting {itemId : Option String} (h : s.SubmittingOnly itemId)
    (hs : s.Corresponds) : s.OneSubmitting := by
  intro b hb i hi b' hb' i' hi' hstatus hstatus'
  have hids : i.itemId = i'.itemId :=
    Option.some.inj ((h b hb i hi hstatus).symm.trans (h b' hb' i' hi' hstatus'))
  obtain rfl := batch_unique hs.itemIds hb hb' hi hi' hids
  exact ⟨rfl, item_unique hs.itemIds hb hi hi' hids⟩

theorem isAcknowledged_append {r : Receipt} :
    isAcknowledged (receiptIds ++ rest) r =
      (isAcknowledged receiptIds r || isAcknowledged rest r) := by
  simp [isAcknowledged]

/-- The receipts that stay. -/
theorem mem_receipts_acknowledge {r : Receipt} : r ∈ (s.acknowledgeReceipts receiptIds).receipts ↔
    r ∈ s.receipts ∧ isAcknowledged receiptIds r = false := by
  simp [acknowledgeReceipts]

theorem isReconciled_append {itemId : String} :
    isReconciled s.receipts (receiptIds ++ rest) itemId ↔
      isReconciled s.receipts receiptIds itemId ∨
        isReconciled (s.acknowledgeReceipts receiptIds).receipts rest itemId := by
  simp only [isReconciled_iff, mem_receipts_acknowledge, isAcknowledged_append, Bool.or_eq_true]
  constructor
  · rintro ⟨r, hr, hid, hack⟩
    by_cases hfirst : isAcknowledged receiptIds r
    · exact .inl ⟨r, hr, hid, hfirst⟩
    · exact .inr ⟨r, ⟨hr, by simpa using hfirst⟩, hid, hack.resolve_left hfirst⟩
  · rintro (⟨r, hr, hid, hack⟩ | ⟨r, ⟨hr, -⟩, hid, hack⟩)
    · exact ⟨r, hr, hid, .inl hack⟩
    · exact ⟨r, hr, hid, .inr hack⟩

theorem stripItems_append {batch : Batch} :
    stripItems (s.acknowledgeReceipts receiptIds).receipts rest
        (stripItems s.receipts receiptIds batch) =
      stripItems s.receipts (receiptIds ++ rest) batch := by
  have hitems : (batch.items.filter fun item =>
        ¬ isReconciled s.receipts receiptIds item.itemId).filter (fun item =>
          ¬ isReconciled (s.acknowledgeReceipts receiptIds).receipts rest item.itemId) =
      batch.items.filter fun item =>
        ¬ isReconciled s.receipts (receiptIds ++ rest) item.itemId := by
    rw [List.filter_filter]
    refine List.filter_congr fun item _ => ?_
    have hiff : isReconciled s.receipts (receiptIds ++ rest) item.itemId ↔ _ :=
      isReconciled_append
    simp only [decide_not, hiff]
    grind
  simp only [stripItems] at hitems ⊢
  rw [hitems]

theorem isSpent_iff {batch : Batch} : isSpent batch ↔ batch.items = [] ∧
    batch.nextProofHeight = none ∧ batch.broadcastCompleteNotificationPendingAt = none := by
  simp [isSpent]

/-- A batch without items stays without items. -/
theorem isSpent_stripItems_append {batch : Batch}
    (h : isSpent (stripItems s.receipts receiptIds batch)) :
    isSpent (stripItems s.receipts (receiptIds ++ rest) batch) := by
  obtain ⟨hitems, hproof, hpending⟩ := isSpent_iff.1 h
  rw [← stripItems_append]
  refine isSpent_iff.2 ⟨?_, hproof, hpending⟩
  rw [stripItems, hitems]
  rfl

/-- A retired batch stays retired with more receipts. -/
theorem isRetired_append {batchId : String}
    (h : isRetired s.receipts receiptIds batchId) :
    isRetired s.receipts (receiptIds ++ rest) batchId := by
  obtain ⟨⟨r, hr, hid, hack, hterminal⟩, hall⟩ := isRetired_iff.1 h
  refine isRetired_iff.2 ⟨⟨r, hr, hid, ?_, hterminal⟩, fun r' hr' hid' => ?_⟩
  · simp [isAcknowledged_append, hack]
  · simp [isAcknowledged_append, hall r' hr' hid']

/-- A batch that the second part retires is retired by both together. -/
theorem isRetired_append_of_rest {batchId : String}
    (h : isRetired (s.acknowledgeReceipts receiptIds).receipts rest batchId) :
    isRetired s.receipts (receiptIds ++ rest) batchId := by
  obtain ⟨⟨r, hr, hid, hack, hterminal⟩, hall⟩ := isRetired_iff.1 h
  obtain ⟨hr, -⟩ := mem_receipts_acknowledge.1 hr
  refine isRetired_iff.2 ⟨⟨r, hr, hid, ?_, hterminal⟩, fun r' hr' hid' => ?_⟩
  · simp [isAcknowledged_append, hack]
  · by_cases hfirst : isAcknowledged receiptIds r'
    · simp [isAcknowledged_append, hfirst]
    · have hrest := hall r' (mem_receipts_acknowledge.2 ⟨hr', by simpa using hfirst⟩) hid'
      simp [isAcknowledged_append, hrest]

/-- A batch that both parts together retire goes in two steps as well. -/
theorem retired_in_two_steps (h : s.RetiresTogether) {batch : Batch} (hb : batch ∈ s.batches)
    (hretired : isRetired s.receipts (receiptIds ++ rest) batch.batchId)
    (hfirst : ¬ isRetired s.receipts receiptIds batch.batchId) :
    isRetired (s.acknowledgeReceipts receiptIds).receipts rest batch.batchId ∨
      isSpent (stripItems s.receipts (receiptIds ++ rest) batch) := by
  obtain ⟨⟨t, ht, htid, htack, hterminal⟩, hall⟩ := isRetired_iff.1 hretired
  by_cases hlate : ∃ r ∈ s.receipts, r.batchId = batch.batchId ∧ r.outcome.isTerminal ∧
      isAcknowledged receiptIds r = false
  · -- a terminal receipt is left for the second part, which retires the batch
    obtain ⟨r, hr, hid, hterminal, hkept⟩ := hlate
    refine .inl (isRetired_iff.2 ⟨⟨r, mem_receipts_acknowledge.2 ⟨hr, hkept⟩, hid, ?_,
      hterminal⟩, fun r' hr' hid' => ?_⟩)
    · simpa [isAcknowledged_append, hkept] using hall r hr hid
    · obtain ⟨hr', hkept'⟩ := mem_receipts_acknowledge.1 hr'
      simpa [isAcknowledged_append, hkept'] using hall r' hr' hid'
  · -- another receipt is left, and nothing of the batch is without a receipt
    have hterminals : ∀ r ∈ s.receipts, r.batchId = batch.batchId → r.outcome.isTerminal →
        isAcknowledged receiptIds r := by
      intro r hr hid hterminal
      by_contra hnot
      exact hlate ⟨r, hr, hid, hterminal, by simpa using hnot⟩
    have hother : ∃ r ∈ s.receipts, r.batchId = batch.batchId ∧ ¬ r.outcome.isTerminal := by
      by_contra hnone
      refine hfirst (isRetired_iff.2 ⟨⟨t, ht, htid, hterminals t ht htid hterminal, hterminal⟩, ?_⟩)
      intro r hr hid
      by_contra hnot
      exact hnone ⟨r, hr, hid, fun hterm => hnot (hterminals r hr hid hterm)⟩
    obtain ⟨hitems, hproof, hpending⟩ := h batch hb ⟨t, ht, htid, hterminal⟩ hother
    refine .inr (isSpent_iff.2 ⟨List.filter_eq_nil_iff.2 fun item hi => ?_, hproof, hpending⟩)
    obtain ⟨r, hr, hid, hbid⟩ := hitems item hi
    simpa using isReconciled_iff.2 ⟨r, hr, hid, hall r hr hbid⟩

/-- What two parts leave of a batch. -/
theorem acknowledgeBatch_append (h : s.RetiresTogether) {batch : Batch} (hb : batch ∈ s.batches) :
    (acknowledgeBatch s.receipts receiptIds batch).bind
        (acknowledgeBatch (s.acknowledgeReceipts receiptIds).receipts rest) =
      acknowledgeBatch s.receipts (receiptIds ++ rest) batch := by
  by_cases hfirst : isRetired s.receipts receiptIds batch.batchId
  · have hboth : isRetired s.receipts (receiptIds ++ rest) batch.batchId := isRetired_append hfirst
    simp [acknowledgeBatch, hfirst, hboth]
  by_cases hspent : isSpent (stripItems s.receipts receiptIds batch)
  · have hboth : isSpent (stripItems s.receipts (receiptIds ++ rest) batch) :=
      isSpent_stripItems_append hspent
    simp [acknowledgeBatch, hspent, hboth]
  have hstep : acknowledgeBatch s.receipts receiptIds batch =
      some (stripItems s.receipts receiptIds batch) := by
    simp [acknowledgeBatch, hfirst, hspent]
  rw [hstep, Option.bind_some, acknowledgeBatch, acknowledgeBatch, stripItems_append]
  have hid : (stripItems s.receipts receiptIds batch).batchId = batch.batchId := rfl
  rw [hid]
  by_cases hboth : isRetired s.receipts (receiptIds ++ rest) batch.batchId
  · have hgone := retired_in_two_steps h hb hboth hfirst
    grind
  · have hrest : ¬ isRetired (s.acknowledgeReceipts receiptIds).receipts rest batch.batchId :=
      fun hrest => hboth (isRetired_append_of_rest hrest)
    grind

/-- Two parts are as good as one. -/
theorem acknowledge_append (h : s.RetiresTogether) :
    (s.acknowledgeReceipts receiptIds).acknowledgeReceipts rest =
      s.acknowledgeReceipts (receiptIds ++ rest) := by
  refine Snapshot.ext ?_ ?_ rfl rfl
  · rw [acknowledgeReceipts_batches, acknowledgeReceipts_batches, acknowledgeReceipts_batches,
      List.filterMap_filterMap]
    exact List.filterMap_congr fun b hb => acknowledgeBatch_append h hb
  · simp only [acknowledgeReceipts, List.filter_filter]
    refine List.filter_congr fun r _ => ?_
    rw [isAcknowledged_append]
    grind

theorem RetiresTogether.orderIndependent (h : s.RetiresTogether) : s.OrderIndependent := by
  intro first parts
  induction parts generalizing first with
  | nil => simp
  | cons part parts ih =>
    rw [List.foldl_cons, acknowledge_append h, ih, List.flatten_cons, List.append_assoc]

/-! ## Acknowledging the terminal receipts first -/

/-- The outcome is the end of a receipt identifier. -/
theorem outcome_eq_of_receiptId {x y : String} {outcome outcome' : ReceiptOutcome}
    (h : x ++ ":" ++ outcome.rawValue = y ++ ":" ++ outcome'.rawValue) : outcome = outcome' := by
  have hcolon : ∀ o : ReceiptOutcome, o.rawValue.toList.reverse.all (· != ':') = true := by
    intro o
    cases o <;> decide
  have hlast : ∀ (z : String) (o : ReceiptOutcome),
      (z ++ ":" ++ o.rawValue).toList.reverse.takeWhile (· != ':') = o.rawValue.toList.reverse := by
    intro z o
    rw [String.toList_append, String.toList_append, List.reverse_append,
      List.takeWhile_append_of_pos (List.all_eq_true.1 (hcolon o))]
    simp
  have hraw : outcome.rawValue.toList.reverse = outcome'.rawValue.toList.reverse := by
    rw [← hlast x, ← hlast y, h]
  cases outcome <;> cases outcome' <;> first | rfl | (revert hraw; decide)

/-- The receipts of a batch that are terminal, or those that are not. -/
def receiptIdsOf (s : Snapshot) (batchId : String) (terminal : Bool) : List String :=
  (s.receipts.filter fun r => r.batchId = batchId ∧ r.outcome.isTerminal = terminal).map
    Receipt.receiptId

theorem isAcknowledged_receiptIdsOf {r : Receipt} {terminal : Bool} (hr : r ∈ s.receipts)
    (h : r.outcome.isTerminal = terminal) :
    isAcknowledged (s.receiptIdsOf r.batchId terminal) r :=
  decide_eq_true (List.mem_map_of_mem (List.mem_filter.2 ⟨hr, decide_eq_true ⟨rfl, h⟩⟩))

/-- Terminal and other receipts of a batch have different identifiers. -/
theorem Corresponds.not_isAcknowledged (hs : s.Corresponds) {r : Receipt} {terminal : Bool}
    (hr : r ∈ s.receipts) (h : r.outcome.isTerminal ≠ terminal) :
    isAcknowledged (s.receiptIdsOf r.batchId terminal) r = false := by
  by_contra hack
  have hmem : r.receiptId ∈ s.receiptIdsOf r.batchId terminal :=
    of_decide_eq_true (by simpa [isAcknowledged] using hack)
  obtain ⟨r', hr', hid⟩ := List.mem_map.1 hmem
  obtain ⟨hr', hkind⟩ := List.mem_filter.1 hr'
  obtain ⟨-, hterminal⟩ := of_decide_eq_true hkind
  obtain ⟨_, -, _, -, hof, -⟩ := hs.present r hr
  obtain ⟨_, -, _, -, hof', -⟩ := hs.present r' hr'
  have hids := hof'.receiptId.symm.trans (hid.trans hof.receiptId)
  exact h (outcome_eq_of_receiptId hids ▸ hterminal)

/-- A batch that goes with all its receipts at once is spent. -/
theorem Corresponds.items_of_isSpent (hs : s.Corresponds) {batch : Batch} (hb : batch ∈ s.batches)
    (h : isSpent (stripItems s.receipts receiptIds batch)) :
    (∀ item ∈ batch.items, ∃ r ∈ s.receipts, r.itemId = item.itemId ∧
      r.batchId = batch.batchId) ∧
    batch.nextProofHeight = none ∧ batch.broadcastCompleteNotificationPendingAt = none := by
  obtain ⟨hitems, hproof, hpending⟩ := isSpent_iff.1 h
  refine ⟨fun i hi => ?_, hproof, hpending⟩
  have hreconciled := List.filter_eq_nil_iff.1 hitems i hi
  obtain ⟨r, hr, hid, -⟩ := isReconciled_iff.1 (by simpa using hreconciled)
  obtain ⟨b', hb', i', hi', hof, -⟩ := hs.present r hr
  obtain rfl := batch_unique hs.itemIds hb' hb hi' hi (hof.itemId.symm.trans hid)
  exact ⟨r, hr, hid, hof.batchId⟩

theorem OrderIndependent.retiresTogether (h : s.OrderIndependent) (hs : s.Corresponds) :
    s.RetiresTogether := by
  intro b hb ⟨t, ht, htid, hterminal⟩ ⟨a, ha, haid, hother⟩
  by_contra hleft
  have hother : a.outcome.isTerminal = false := by simpa using hother
  -- the terminal receipts of the batch first, then the others
  have hsame := h (s.receiptIdsOf b.batchId true) [s.receiptIdsOf b.batchId false]
  simp only [List.foldl_cons, List.foldl_nil, List.flatten_cons, List.flatten_nil,
    List.append_nil] at hsame
  have hspent : ¬ isSpent (stripItems s.receipts
      (s.receiptIdsOf b.batchId true ++ s.receiptIdsOf b.batchId false) b) :=
    fun hspent => hleft (hs.items_of_isSpent hb hspent)
  have hfirst : ¬ isRetired s.receipts (s.receiptIdsOf b.batchId true) b.batchId := by
    intro hretired
    have hack := (isRetired_iff.1 hretired).2 a ha haid
    have hnot : isAcknowledged (s.receiptIdsOf a.batchId true) a = false :=
      hs.not_isAcknowledged ha (by simp [hother])
    rw [haid, hack] at hnot
    cases hnot
  have hrest : ¬ isRetired (s.acknowledgeReceipts (s.receiptIdsOf b.batchId true)).receipts
      (s.receiptIdsOf b.batchId false) b.batchId := by
    intro hretired
    obtain ⟨⟨r, hr, hid, -, hterm⟩, -⟩ := isRetired_iff.1 hretired
    obtain ⟨hr, hkept⟩ := mem_receipts_acknowledge.1 hr
    have hack := isAcknowledged_receiptIdsOf hr hterm
    rw [hid, hkept] at hack
    cases hack
  have hboth : isRetired s.receipts
      (s.receiptIdsOf b.batchId true ++ s.receiptIdsOf b.batchId false) b.batchId := by
    refine isRetired_iff.2 ⟨⟨t, ht, htid, ?_, hterminal⟩, fun r hr hid => ?_⟩
    · simp [isAcknowledged_append, htid ▸ isAcknowledged_receiptIdsOf ht hterminal]
    · rw [isAcknowledged_append]
      cases hterm : r.outcome.isTerminal with
      | true => simp [hid ▸ isAcknowledged_receiptIdsOf hr hterm]
      | false => simp [hid ▸ isAcknowledged_receiptIdsOf hr hterm]
  -- in parts the batch stays
  have hstays : stripItems s.receipts
      (s.receiptIdsOf b.batchId true ++ s.receiptIdsOf b.batchId false) b ∈
      ((s.acknowledgeReceipts (s.receiptIdsOf b.batchId true)).acknowledgeReceipts
        (s.receiptIdsOf b.batchId false)).batches := by
    rw [acknowledgeReceipts_batches, acknowledgeReceipts_batches, List.filterMap_filterMap]
    refine List.mem_filterMap.2 ⟨b, hb, ?_⟩
    have hstep : acknowledgeBatch s.receipts (s.receiptIdsOf b.batchId true) b =
        some (stripItems s.receipts (s.receiptIdsOf b.batchId true) b) := by
      refine acknowledgeBatch_eq_some.2 ⟨by simpa using hfirst, ?_, rfl⟩
      simpa using fun hspent' => hspent (isSpent_stripItems_append hspent')
    rw [hstep, Option.bind_some]
    exact acknowledgeBatch_eq_some.2 ⟨Bool.eq_false_of_not_eq_true hrest, by simpa using hspent,
      stripItems_append⟩
  rw [hsame, acknowledgeReceipts_batches] at hstays
  obtain ⟨b', -, hb'⟩ := List.mem_filterMap.1 hstays
  obtain ⟨hkept, -, heq⟩ := acknowledgeBatch_eq_some.1 hb'
  have hid : b'.batchId = b.batchId := by simpa [stripItems] using congrArg Batch.batchId heq
  rw [hid, hboth] at hkept
  cases hkept

end Snapshot

/-- After any operations in any order receipts and items correspond, and acknowledging receipts in
parts is acknowledging them at once exactly when no batch has a terminal and another receipt beside
something without a receipt. One item at most is submitting when submissions begin alone, and the
runner and the app reach snapshots of such runs only. -/
theorem receipts_reconcilable (digestHex : Bytes → String) :
    (∀ t, (outbox digestHex).Reachable t →
      t.snapshot.Reconcilable ∧ (t.snapshot.OrderIndependent ↔ t.snapshot.RetiresTogether)) ∧
    (∀ t, (outbox digestHex).Reaches SubmitsAlone t → t.snapshot.OneSubmitting) ∧
    ∀ sys, (runnerSystem digestHex).Reachable sys →
      ∃ t, (outbox digestHex).Reaches SubmitsAlone t ∧ t.snapshot = sys.snapshot := by
  refine ⟨fun t h => ?_, fun t h => ?_, fun sys h => ?_⟩
  · have hs : t.snapshot.Corresponds := corresponds_of_reachable h
    exact ⟨hs.reconcilable, fun horder => horder.retiresTogether hs,
      fun hretires => hretires.orderIndependent⟩
  · obtain ⟨itemId, honly⟩ := submittingOnly_of_reaches h
    exact honly.oneSubmitting (corresponds_of_reachable h.reachable)
  · obtain ⟨t, hrefines⟩ := RunnerSystem.refines_of_reachable h
    exact ⟨t, hrefines.reaches, hrefines.snapshot⟩

/-! ## Three parts -/

/-- The first part is accepted, and the second one is due after the boundary. -/
def sampleRun : List RunnerEvent :=
  [.app (.stageBatch sampleParts),
    .app (.armBatch "main:account:run" sampleDigests 0),
    .beginRun 60, .select 34_555 "https://host:9067" "attempt" 60,
    .record (.accepted false 34_555 0 "" 60 sampleRandom),
    .beginRun 400, .select 34_560 "https://host:9067" "attempt" 400]

theorem receipts_reconcilable_sample :
    ∃ sys, (runnerSystem fun _ => "digest").run {} sampleRun = some sys ∧
      sys.snapshot.receipts.map Receipt.outcome = [.accepted, .needsResign] ∧
      sys.snapshot.Reconcilable ∧ sys.snapshot.OneSubmitting ∧
      (sys.snapshot.OrderIndependent ↔ sys.snapshot.RetiresTogether) := by
  have houtcomes : ((runnerSystem fun _ => "digest").run {} sampleRun).map
      (fun sys => sys.snapshot.receipts.map Receipt.outcome) =
        some [.accepted, .needsResign] := by decide +kernel
  obtain ⟨sys, hrun, hreceipts⟩ := Option.map_eq_some_iff.1 houtcomes
  obtain ⟨hreachable, halone, hrefines⟩ := receipts_reconcilable fun _ => "digest"
  obtain ⟨t, ht, hsnapshot⟩ := hrefines sys (Transition.Reachable.run .init hrun)
  obtain ⟨hreconcilable, hiff⟩ := hreachable t ht.reachable
  rw [hsnapshot] at hreconcilable hiff
  exact ⟨sys, hrun, hreceipts, hreconcilable, hsnapshot ▸ halone t ht, hiff⟩

/-- Acknowledging the terminal receipt first leaves the third part behind, although submissions
begin alone. -/
theorem left_over_item : ¬ ∀ t, (outbox fun _ => "digest").Reaches SubmitsAlone t →
    t.snapshot.Reconcilable ∧ t.snapshot.OneSubmitting ∧ t.snapshot.OrderIndependent := by
  intro h
  have hdiffer : ((runnerSystem fun _ => "digest").run {} sampleRun).any fun sys =>
      ((sys.snapshot.acknowledgeReceipts ["main:account:run:run:1:needsResign"]).acknowledgeReceipts
        ["main:account:run:run:0:accepted"]) ≠
      sys.snapshot.acknowledgeReceipts
        ["main:account:run:run:1:needsResign", "main:account:run:run:0:accepted"] := by
    decide +kernel
  obtain ⟨sys, hreachable, hne⟩ := Transition.exists_reachable _ _ _ hdiffer
  obtain ⟨t, hrefines⟩ := RunnerSystem.refines_of_reachable hreachable
  obtain ⟨-, -, horder⟩ := h t hrefines.reaches
  rw [hrefines.snapshot] at horder
  exact of_decide_eq_true hne
    (horder ["main:account:run:run:1:needsResign"] [["main:account:run:run:0:accepted"]])

end VizorWallet.Outbox
