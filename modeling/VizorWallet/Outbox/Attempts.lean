import VizorWallet.Library.Transition
import VizorWallet.Outbox.Operations

/-!
# The trace of an attempt

When a migration is stopped, the wallet asks the outbox which transactions may have been submitted,
and releases the notes of the others. A history beside the snapshot remembers every attempt that
was not taken back before its transport call.

## Main definitions

* `History` — the attempts so far and the greatest height seen.
* `AcknowledgesSafely` — no acknowledgement drops an item with an attempt of unknown outcome.

## Main results

* `attempts_listed` — in runs of such acknowledgements every attempt is listed until its
  transaction expires or its receipt is acknowledged.
* `attempt_forgotten` — other acknowledgements lose attempts.
-/

namespace VizorWallet.Outbox

/-! ## The history -/

/-- An attempt to submit the transaction of an item of a run. -/
structure Attempt where
  network : String
  accountUuid : String
  runId : String
  itemId : String
  txidHex : String
  expiryHeight : ℕ
  deriving DecidableEq

def Attempt.of (batch : Batch) (item : Item) : Attempt where
  network := batch.network
  accountUuid := batch.accountUuid
  runId := batch.runId
  itemId := item.itemId
  txidHex := item.txidHex
  expiryHeight := item.expiryHeight

/-- The greatest height seen, and the attempts that may have reached the network and whose outcome
the wallet has not acknowledged. -/
structure History where
  remoteHeight : ℕ := 0
  attempts : List Attempt := []

/-- A snapshot with its history. -/
structure Traced where
  snapshot : Snapshot := {}
  history : History := {}

namespace Snapshot

/-- The attempt to submit an item. -/
def attemptOf (s : Snapshot) (itemId : String) : Option Attempt :=
  (s.itemLocation itemId).toOption.map fun location => Attempt.of location.1 location.2

theorem attemptOf_of_location {s : Snapshot} {itemId : String} {batch : Batch} {item : Item}
    (h : s.itemLocation itemId = .ok (batch, item)) :
    s.attemptOf itemId = some (Attempt.of batch item) := by
  rw [attemptOf, h]
  rfl

/-- The accepted or rejected receipt of an attempt is acknowledged. -/
def isSettled (s : Snapshot) (receiptIds : List String) (attempt : Attempt) : Bool :=
  s.receipts.any fun r => isAcknowledged receiptIds r ∧ r.outcome.status.isAttempt ∧
    r.network = attempt.network ∧ r.accountUuid = attempt.accountUuid ∧
    r.runId = attempt.runId ∧ r.itemId = attempt.itemId

end Snapshot

/-- The history after an operation on a snapshot. -/
def History.after (history : History) (s : Snapshot) : Op → History
  | .expireItems remoteHeight _ _ | .markDueItemsNeedingResign remoteHeight _ _
  | .recordAccepted _ _ remoteHeight _ _ _ _ | .recordRejected _ remoteHeight _ _ _ =>
    { history with remoteHeight := max history.remoteHeight remoteHeight }
  | .submitDue remoteHeight endpoint attemptId date =>
    let chosen := (s.submitDue remoteHeight endpoint attemptId date).toOption.bind Prod.snd
    { remoteHeight := max history.remoteHeight remoteHeight
      attempts :=
        (chosen.bind fun chosen => s.attemptOf chosen.item.itemId).toList ++ history.attempts }
  | .recordCancelledBeforeSubmission itemId _ =>
    { history with attempts := history.attempts.diff (s.attemptOf itemId).toList }
  | .acknowledgeReceipts receiptIds =>
    { history with
      attempts := history.attempts.filter fun attempt => ¬ s.isSettled receiptIds attempt }
  | _ => history

/-- The outbox with its history. -/
def outbox (digestHex : Bytes → String) : Transition Traced Op where
  init := {}
  step t op := (op.apply digestHex t.snapshot).map fun s =>
    { snapshot := s, history := t.history.after t.snapshot op }

/-- An acknowledgement drops an item, with its receipt or with its batch. -/
def Snapshot.drops (s : Snapshot) (receiptIds : List String) (batch : Batch) (item : Item) :
    Prop :=
  Snapshot.isReconciled s.receipts receiptIds item.itemId ∨
    Snapshot.isRetired s.receipts receiptIds batch.batchId

/-- Every dropped item with an attempt is accepted, rejected or past its expiry. -/
def AcknowledgesSafely (t : Traced) : Op → Prop
  | .acknowledgeReceipts receiptIds =>
    ∀ batch ∈ t.snapshot.batches, ∀ item ∈ batch.items, t.snapshot.drops receiptIds batch item →
      0 < item.attempts → item.expiryHeight ≤ t.history.remoteHeight ∨
        item.status = .acceptedAwaitingReconciliation ∨
        item.status = .rejectedAwaitingReconciliation
  | _ => True

/-- Every attempt is listed until its transaction expires. -/
def Traced.Listed (t : Traced) : Prop :=
  ∀ attempt ∈ t.history.attempts, t.history.remoteHeight < attempt.expiryHeight →
    attempt.txidHex ∈
      t.snapshot.listAttemptedTxids attempt.network attempt.accountUuid attempt.runId

/-- An unexpired attempt has its item, which records it. -/
structure Traced.Invariant (t : Traced) : Prop where
  corresponds : t.snapshot.Corresponds
  held : ∀ attempt ∈ t.history.attempts, t.history.remoteHeight < attempt.expiryHeight →
    ∃ batch ∈ t.snapshot.batches, ∃ item ∈ batch.items, Attempt.of batch item = attempt ∧
      t.history.attempts.count attempt ≤ item.attempts

section Invariant

variable {t : Traced} {s' : Snapshot} {history : History} {R : List Receipt}

theorem mem_listAttemptedTxids {s : Snapshot} {batch : Batch} {item : Item}
    (hb : batch ∈ s.batches) (hi : item ∈ batch.items) (hattempts : 0 < item.attempts) :
    item.txidHex ∈ s.listAttemptedTxids batch.network batch.accountUuid batch.runId := by
  have hattempted : 0 < item.attemptCount ∨ item.status = .submitting ∨
      item.status = .acceptedAwaitingReconciliation ∨
      item.status = .rejectedAwaitingReconciliation := by
    unfold Item.attempts at hattempts
    cases hstatus : item.status <;> simp_all [ItemStatus.isAttempt]
  refine List.mem_map_of_mem (List.mem_filter.2 ⟨?_, decide_eq_true hattempted⟩)
  exact List.mem_flatMap.2 ⟨batch, List.mem_filter.2 ⟨hb, by simp⟩, hi⟩

/-- Attempts that have their items are listed. -/
theorem Traced.Invariant.listed (h : t.Invariant) : t.Listed := by
  intro attempt hmem hlt
  obtain ⟨batch, hb, item, hi, rfl, hcount⟩ := h.held attempt hmem hlt
  have hpos : 0 < t.history.attempts.count (Attempt.of batch item) := List.count_pos_iff.2 hmem
  exact mem_listAttemptedTxids hb hi (by omega)

theorem attempt_of_move {δ : Item → Item → Prop} {batch batch' : Batch} {item item' : Item}
    (hb : BatchMove δ R batch batch') (hi : ItemMove R batch.batchId item item') :
    Attempt.of batch' item' = Attempt.of batch item := by
  simp only [Attempt.of, hb.network, hb.accountUuid, hb.runId, hi.itemId, hi.txidHex,
    hi.expiryHeight]

/-- Moves that begin no attempt and take none back. -/
theorem Traced.Invariant.of_steady (h : t.Invariant) (hm : t.snapshot.Moves Steady s' R)
    (hattempts : history.attempts = t.history.attempts)
    (hheight : t.history.remoteHeight ≤ history.remoteHeight) :
    Traced.Invariant ⟨s', history⟩ where
  corresponds := hm.corresponds h.corresponds
  held attempt hmem hlt := by
    simp only [hattempts] at hmem hlt ⊢
    obtain ⟨b, hb, i, hi, rfl, hcount⟩ := h.held attempt hmem (lt_of_le_of_lt hheight hlt)
    obtain ⟨b', hb', hbb⟩ := exists_mem_right hm.batches hb
    obtain ⟨i', hi', hii, hsteady⟩ := exists_mem_right hbb.items hi
    exact ⟨b', hb', i', hi', attempt_of_move hbb hii, hsteady.attempts ▸ hcount⟩

/-- The item of an attempt is the located one. -/
theorem attempt_eq_iff (hs : t.snapshot.Corresponds) {itemId : String} {batch b : Batch}
    {item i : Item} (hlocation : t.snapshot.itemLocation itemId = .ok (batch, item))
    (hb : b ∈ t.snapshot.batches) (hi : i ∈ b.items) :
    Attempt.of b i = Attempt.of batch item ↔ i.itemId = itemId := by
  obtain ⟨hbatch, hitem, hid⟩ := Snapshot.itemLocation_itemId hlocation
  constructor
  · exact fun h => (congrArg Attempt.itemId h).trans hid
  · intro h
    have hids := h.trans hid.symm
    obtain rfl := Snapshot.batch_unique hs.itemIds hb hbatch hi hitem hids
    obtain rfl := Snapshot.item_unique hs.itemIds hb hi hitem hids
    rfl

/-- An item begins an attempt, which the history remembers. -/
theorem Traced.Invariant.of_submits (h : t.Invariant) {itemId : String} {batch : Batch}
    {item : Item} (hm : t.snapshot.Moves (Submits itemId) s' [])
    (hlocation : t.snapshot.itemLocation itemId = .ok (batch, item))
    (hattempts : history.attempts = Attempt.of batch item :: t.history.attempts)
    (hheight : t.history.remoteHeight ≤ history.remoteHeight) :
    Traced.Invariant ⟨s', history⟩ where
  corresponds := hm.corresponds h.corresponds
  held attempt hmem hlt := by
    obtain ⟨hbatch, hitem, hid⟩ := Snapshot.itemLocation_itemId hlocation
    have hlt := lt_of_le_of_lt hheight hlt
    -- the item of the attempt before the submission
    have hbefore : ∃ b ∈ t.snapshot.batches, ∃ i ∈ b.items, Attempt.of b i = attempt ∧
        t.history.attempts.count attempt ≤ i.attempts := by
      by_cases hold : attempt ∈ t.history.attempts
      · exact h.held attempt hold hlt
      · simp only [hattempts] at hmem
        obtain rfl := (List.mem_cons.1 hmem).resolve_right hold
        exact ⟨batch, hbatch, item, hitem, rfl, by simp [List.count_eq_zero_of_not_mem hold]⟩
    obtain ⟨b, hb, i, hi, rfl, hcount⟩ := hbefore
    obtain ⟨b', hb', hbb⟩ := exists_mem_right hm.batches hb
    obtain ⟨i', hi', hii, hsubmits⟩ := exists_mem_right hbb.items hi
    refine ⟨b', hb', i', hi', attempt_of_move hbb hii, ?_⟩
    have hiff := attempt_eq_iff h.corresponds hlocation hb hi
    rw [hattempts, List.count_cons, hsubmits.attempts]
    by_cases hi' : i.itemId = itemId
    · rw [if_pos hi', if_pos (by simp [hiff.2 hi'])]
      omega
    · rw [if_neg hi', if_neg fun h => hi' (hiff.1 (beq_iff_eq.1 h).symm)]
      exact hcount

/-- An item takes its attempt back, and the history forgets it. -/
theorem Traced.Invariant.of_cancels (h : t.Invariant) {itemId : String} {batch : Batch}
    {item : Item} (hm : t.snapshot.Moves (Cancels itemId) s' [])
    (hlocation : t.snapshot.itemLocation itemId = .ok (batch, item))
    (hattempts : history.attempts = t.history.attempts.erase (Attempt.of batch item))
    (hheight : t.history.remoteHeight ≤ history.remoteHeight) :
    Traced.Invariant ⟨s', history⟩ where
  corresponds := hm.corresponds h.corresponds
  held attempt hmem hlt := by
    simp only [hattempts] at hmem ⊢
    obtain ⟨b, hb, i, hi, rfl, hcount⟩ :=
      h.held attempt (List.mem_of_mem_erase hmem) (lt_of_le_of_lt hheight hlt)
    obtain ⟨b', hb', hbb⟩ := exists_mem_right hm.batches hb
    obtain ⟨i', hi', hii, hcancels⟩ := exists_mem_right hbb.items hi
    refine ⟨b', hb', i', hi', attempt_of_move hbb hii, ?_⟩
    have hiff := attempt_eq_iff h.corresponds hlocation hb hi
    have hold := hcancels.attempts
    by_cases hi' : i.itemId = itemId
    · rw [if_pos hi'] at hold
      rw [hiff.2 hi', List.count_erase_self, ← hiff.2 hi']
      omega
    · rw [if_neg hi'] at hold
      rw [List.count_erase_of_ne fun h => hi' (hiff.1 h)]
      omega

/-- New items have no attempt. -/
theorem Traced.Invariant.of_grows (h : t.Invariant) (hg : t.snapshot.Grows s')
    (hids : s'.itemIds.Nodup) (hattempts : history.attempts = t.history.attempts)
    (hheight : t.history.remoteHeight ≤ history.remoteHeight) :
    Traced.Invariant ⟨s', history⟩ where
  corresponds := hg.corresponds hids h.corresponds
  held attempt hmem hlt := by
    simp only [hattempts] at hmem hlt ⊢
    obtain ⟨b, hb, i, hi, rfl, hcount⟩ := h.held attempt hmem (lt_of_le_of_lt hheight hlt)
    obtain ⟨b', hb', hsame, hitems⟩ := hg.kept b hb
    refine ⟨b', hb', i, hitems i hi, ?_, hcount⟩
    simp only [Attempt.of, hsame.network, hsame.accountUuid, hsame.runId]

/-- Removals keep the items of the attempts that the history keeps. -/
theorem Traced.Invariant.of_shrinks (h : t.Invariant) (hshrinks : t.snapshot.Shrinks s')
    (hsub : history.attempts.Sublist t.history.attempts)
    (hheight : t.history.remoteHeight ≤ history.remoteHeight)
    (hkept : ∀ b ∈ t.snapshot.batches, ∀ i ∈ b.items, 0 < i.attempts →
      Attempt.of b i ∈ history.attempts → t.history.remoteHeight < i.expiryHeight →
      ∃ b' ∈ s'.batches, Snapshot.SameRun b b' ∧ i ∈ b'.items) :
    Traced.Invariant ⟨s', history⟩ where
  corresponds := hshrinks.corresponds h.corresponds
  held attempt hmem hlt := by
    have hlt := lt_of_le_of_lt hheight hlt
    obtain ⟨b, hb, i, hi, rfl, hcount⟩ := h.held attempt (hsub.subset hmem) hlt
    have hpos : 0 < t.history.attempts.count (Attempt.of b i) :=
      List.count_pos_iff.2 (hsub.subset hmem)
    obtain ⟨b', hb', hsame, hi'⟩ := hkept b hb i hi (by omega) hmem hlt
    refine ⟨b', hb', i, hi', ?_, (hsub.count_le _).trans hcount⟩
    simp only [Attempt.of, hsame.network, hsame.accountUuid, hsame.runId]

end Invariant

/-! ## Runs -/

section Runs

variable {digestHex : Bytes → String} {t t' : Traced}

/-- An acknowledgement drops items only. -/
theorem kept_of_not_drops {s : Snapshot} {receiptIds : List String} {batch : Batch} {item : Item}
    (hb : batch ∈ s.batches) (hi : item ∈ batch.items)
    (hnot : ¬ s.drops receiptIds batch item) :
    ∃ b' ∈ (s.acknowledgeReceipts receiptIds).batches,
      Snapshot.SameRun batch b' ∧ item ∈ b'.items := by
  obtain ⟨hreconciled, hretired⟩ := not_or.1 hnot
  have hstays : item ∈ (Snapshot.stripItems s.receipts receiptIds batch).items :=
    Snapshot.mem_stripItems.2 ⟨hi, hreconciled⟩
  refine ⟨Snapshot.stripItems s.receipts receiptIds batch, ?_, ⟨rfl, rfl, rfl, rfl⟩, hstays⟩
  rw [Snapshot.acknowledgeReceipts_batches]
  refine List.mem_filterMap.2 ⟨batch, hb, Snapshot.acknowledgeBatch_eq_some.2 ⟨?_, ?_, rfl⟩⟩
  · simpa using hretired
  · simp [Snapshot.isSpent, List.ne_nil_of_mem hstays]

/-- An accepted or rejected item is dropped with its own receipt. -/
theorem isSettled_of_drops {s : Snapshot} (hs : s.Corresponds) {receiptIds : List String}
    {batch : Batch} {item : Item} (hb : batch ∈ s.batches) (hi : item ∈ batch.items)
    (hdrops : s.drops receiptIds batch item)
    (hstatus : item.status = .acceptedAwaitingReconciliation ∨
      item.status = .rejectedAwaitingReconciliation) :
    s.isSettled receiptIds (Attempt.of batch item) := by
  have hawaiting : item.status.isAwaiting := by obtain h | h := hstatus <;> rw [h] <;> rfl
  have hattempt : item.status.isAttempt := by obtain h | h := hstatus <;> rw [h] <;> rfl
  obtain ⟨r, hr, hof⟩ := hs.recorded batch hb item hi hawaiting
  have hack : Snapshot.isAcknowledged receiptIds r := by
    obtain hreconciled | hretired := hdrops
    · by_contra hkept
      exact Snapshot.not_isReconciled_of_kept hs hr (by simpa using hkept)
        (hof.itemId ▸ hreconciled)
    · exact (Snapshot.isRetired_iff.1 hretired).2 r hr hof.batchId
  have hout : r.outcome.status = item.status := by
    obtain ⟨b₀, hb₀, i₀, hi₀, hof₀, hstatus₀⟩ := hs.present r hr
    have hids : i₀.itemId = item.itemId := hof₀.itemId.symm.trans hof.itemId
    obtain rfl := Snapshot.batch_unique hs.itemIds hb₀ hb hi₀ hi hids
    obtain rfl := Snapshot.item_unique hs.itemIds hb₀ hi₀ hi hids
    exact hstatus₀.symm
  refine List.any_eq_true.2 ⟨r, hr, decide_eq_true ?_⟩
  exact ⟨hack, hout ▸ hattempt, hof.network, hof.accountUuid, hof.runId, hof.itemId⟩

theorem History.remoteHeight_le_after {history : History} {s : Snapshot} {op : Op} :
    history.remoteHeight ≤ (history.after s op).remoteHeight := by
  cases op <;> simp [History.after]

theorem History.attempts_after_of_isSteady {history : History} {s : Snapshot} {op : Op}
    (h : op.IsSteady s) : (history.after s op).attempts = history.attempts := by
  cases op with
  | submitDue remoteHeight endpoint attemptId date =>
    simp only [Op.IsSteady] at h
    simp [History.after, h]
  | recordCancelledBeforeSubmission => exact absurd h id
  | acknowledgeReceipts => exact absurd h id
  | _ => rfl

/-- One admissible operation keeps the invariant. -/
theorem Traced.Invariant.step (h : t.Invariant) {op : Op} (hok : AcknowledgesSafely t op)
    (hstep : (outbox digestHex).step t op = some t') : t'.Invariant := by
  obtain ⟨s', happly, rfl⟩ := Option.map_eq_some_iff.1 hstep
  have hs := h.corresponds
  cases Op.effect hs happly with
  | steady hm hop =>
    exact h.of_steady hm (History.attempts_after_of_isSteady hop) History.remoteHeight_le_after
  | submits hsubmit hlocation hm =>
    refine h.of_submits hm hlocation ?_ History.remoteHeight_le_after
    simp [History.after, hsubmit, Except.toOption, Snapshot.attemptOf_of_location hlocation]
  | cancels hlocation hm =>
    refine h.of_cancels hm hlocation ?_ History.remoteHeight_le_after
    simp [History.after, Snapshot.attemptOf_of_location hlocation]
  | grows hg hids hop =>
    exact h.of_grows hg hids (History.attempts_after_of_isSteady hop)
      History.remoteHeight_le_after
  | shrinks hshrinks hkept hop =>
    have hattempts : (t.history.after t.snapshot op).attempts = t.history.attempts :=
      History.attempts_after_of_isSteady hop
    refine h.of_shrinks hshrinks (hattempts ▸ .refl _) History.remoteHeight_le_after ?_
    exact fun b hb i hi hpos _ _ => ⟨b, hkept b hb i hi hpos, Snapshot.SameRun.refl b, hi⟩
  | acknowledges =>
    refine h.of_shrinks (Snapshot.acknowledgeReceipts_shrinks hs _) List.filter_sublist
      le_rfl fun b hb i hi hpos hmem hlt => ?_
    refine kept_of_not_drops hb hi fun hdrops => ?_
    obtain hexpired | hstatus := hok b hb i hi hdrops hpos
    · exact absurd hlt (not_lt.2 hexpired)
    · have hsettled := isSettled_of_drops hs hb hi hdrops hstatus
      simp [History.after, hsettled] at hmem

theorem Traced.invariant_init : Traced.Invariant {} where
  corresponds := Snapshot.corresponds_empty
  held := by simp

/-- In every run whose acknowledgements are safe, every attempt is listed until its transaction
expires or its accepted or rejected receipt is acknowledged. -/
theorem attempts_listed (h : (outbox digestHex).Reaches AcknowledgesSafely t) : t.Listed :=
  (h.invariant (I := Traced.Invariant) Traced.invariant_init
    fun _ _ _ hinv hok hstep => hinv.step hok hstep).listed

end Runs

/-! ## Three parts -/

instance (t : Traced) : (op : Op) → Decidable (AcknowledgesSafely t op)
  | .acknowledgeReceipts receiptIds =>
    inferInstanceAs (Decidable (∀ batch ∈ t.snapshot.batches, ∀ item ∈ batch.items,
      (Snapshot.isReconciled t.snapshot.receipts receiptIds item.itemId ∨
        Snapshot.isRetired t.snapshot.receipts receiptIds batch.batchId) →
      0 < item.attempts → item.expiryHeight ≤ t.history.remoteHeight ∨
        item.status = .acceptedAwaitingReconciliation ∨
        item.status = .rejectedAwaitingReconciliation))
  | .stageBatch .. | .armBatch .. | .recoverBatch .. | .recoverInterruptedSubmissions .. |
    .expireItems .. | .markDueItemsNeedingResign .. | .submitDue .. | .recordUncertain .. |
    .recordCancelledBeforeSubmission .. | .recordAccepted .. | .recordRejected .. |
    .markBroadcastCompleteIfNeeded .. | .acknowledgeBroadcastCompleteNotification .. |
    .discardBatch .. => inferInstanceAs (Decidable True)

def samplePart (partIndex : ℕ) (itemId txidHex : String) (scheduledHeight : ℕ) : IncomingItem where
  itemId
  partIndex
  txidHex
  rawTransaction := [5]
  anchorBoundaryHeight := 34_000
  scheduledHeight
  scheduleStartHeight := 34_500
  expiryHeight := 69_120

/-- Two parts due around the start of an expiry period, and a later one. -/
def sampleParts : IncomingBatch where
  batchId := "main:account:run"
  network := "main"
  accountUuid := "account"
  runId := "run"
  lightwalletdUrl := "https://host:9067"
  timingMeanBlocks := 144
  timingMaxBlocks := 576
  nextProofHeight := none
  items := [samplePart 0 "run:0" "aa" 34_550, samplePart 1 "run:1" "ab" 34_556,
    samplePart 2 "run:2" "ac" 34_600]

def sampleRandom : Random where
  shuffle := id
  shuffle_perm _ := .refl _
  delay _ _ _ := 1

def sampleDigests : List (String × String) :=
  [("run:0", "digest"), ("run:1", "digest"), ("run:2", "digest")]

/-- The outcome of the first submission is unknown, the second one is accepted, and the wallet
acknowledges its receipt. -/
def sampleAcknowledged : List Op :=
  [.stageBatch sampleParts, .armBatch "main:account:run" sampleDigests 0,
    .submitDue 34_555 none "attempt" 60, .recordUncertain "run:0" "timeout" 61,
    .submitDue 34_556 none "attempt" 62,
    .recordAccepted "run:1" false 34_556 0 "" 63 sampleRandom,
    .acknowledgeReceipts ["main:account:run:run:1:accepted"]]

theorem attempts_listed_sample :
    ∃ t, (outbox fun _ => "digest").runWhile AcknowledgesSafely {} sampleAcknowledged = some t ∧
      t.history.attempts.map Attempt.txidHex = ["aa"] ∧ t.Listed := by
  have hattempts : ((outbox fun _ => "digest").runWhile AcknowledgesSafely {}
      sampleAcknowledged).map (fun t => t.history.attempts.map Attempt.txidHex) =
        some ["aa"] := by decide +kernel
  obtain ⟨t, hrun, htxids⟩ := Option.map_eq_some_iff.1 hattempts
  exact ⟨t, hrun, htxids, attempts_listed (Transition.Reaches.init.runWhile hrun)⟩

/-- A batch of one part, whose outcome is unknown, which is due again after the boundary, and whose
receipt is acknowledged. -/
def sampleForgotten : List Op :=
  [.stageBatch { sampleParts with items := [samplePart 0 "run:0" "aa" 34_550] },
    .armBatch "main:account:run" [("run:0", "digest")] 0,
    .submitDue 34_555 none "attempt" 60, .recordUncertain "run:0" "timeout" 61,
    .markDueItemsNeedingResign 34_560 "https://host:9067" 200,
    .acknowledgeReceipts ["main:account:run:run:0:needsResign"]]

/-- An acknowledged part loses its attempt although its transaction can still be mined. -/
theorem attempt_forgotten :
    ¬ ∀ t, (outbox fun _ => "digest").Reachable t → t.Listed := by
  intro h
  have hlost : ((outbox fun _ => "digest").run {} sampleForgotten).any fun t =>
      t.history.attempts.any fun a => t.history.remoteHeight < a.expiryHeight ∧
        a.txidHex ∉ t.snapshot.listAttemptedTxids a.network a.accountUuid a.runId := by
    decide +kernel
  obtain ⟨t, hreachable, hbad⟩ := Transition.exists_reachable _ _ _ hlost
  obtain ⟨a, ha, hbad⟩ := List.any_eq_true.1 hbad
  obtain ⟨hlt, hnot⟩ := of_decide_eq_true hbad
  exact hnot (h t hreachable a ha hlt)

end VizorWallet.Outbox
