import VizorWallet.Outbox.Correspondence

/-!
# The operations on the stored snapshot

Every operation of the app and of the runner, and what each of them does to the snapshot: it moves
items steadily, begins an attempt, takes an attempt back, adds items, removes batches, or removes
what an acknowledgement drops.

## Main definitions

* `Op`, `Op.apply` — the operations.
* `Effect` — what an operation does.

## Main results

* `Op.effect` — every operation has one of the effects.
* `Effect.corresponds` — every effect keeps the correspondence of receipts and items.
-/

namespace VizorWallet.Outbox

/-- The operations on the stored snapshot. -/
inductive Op where
  | stageBatch (batch : IncomingBatch)
  | armBatch (batchId : String) (expectedDigests : List (String × String)) (date : Date)
  | recoverBatch (batchId network accountUuid runId : String) (expectedTxids : List String)
      (lightwalletdUrl : String) (date : Date)
  | recoverInterruptedSubmissions (date : Date)
  | expireItems (remoteHeight : ℕ) (endpoint : String) (date : Date)
  | markDueItemsNeedingResign (remoteHeight : ℕ) (endpoint : String) (date : Date)
  | submitDue (remoteHeight : ℕ) (endpoint : Option String) (attemptId : String) (date : Date)
  | recordUncertain (itemId error : String) (date : Date)
  | recordCancelledBeforeSubmission (itemId error : String)
  | recordAccepted (itemId : String) (equivalent : Bool) (remoteHeight : ℕ) (responseCode : ℤ)
      (responseMessage : String) (date : Date) (random : Random)
  | recordRejected (itemId : String) (remoteHeight : ℕ) (responseCode : ℤ)
      (responseMessage : String) (date : Date)
  | markBroadcastCompleteIfNeeded (batchId : String) (date : Date)
  | acknowledgeBroadcastCompleteNotification (batchId : String) (date : Date)
  | discardBatch (batchId : String)
  | acknowledgeReceipts (receiptIds : List String)

namespace Snapshot

/-- Select a due item and begin its submission. -/
def submitDue (s : Snapshot) (remoteHeight : ℕ) (endpoint : Option String) (attemptId : String)
    (date : Date) : Except OutboxError (Snapshot × Option Selection) :=
  match s.selectDue remoteHeight endpoint date with
  | (selected, none) => .ok (selected, none)
  | (selected, some selection) => do
    selected.validateReschedulingAfterAcceptance selection.item.itemId remoteHeight
    let begun ← selected.beginSubmission selection.item.itemId attemptId date
    return (begun, some selection)

end Snapshot

/-- The stored snapshot after an operation; an operation that throws stores nothing. The app names
an item by its transaction, so no two batches share an item identifier. -/
def Op.apply (digestHex : Bytes → String) (s : Snapshot) : Op → Option Snapshot
  | .stageBatch batch => do
    let staged ← (s.stageBatch digestHex batch).toOption
    if staged.itemIds.Nodup then some staged else none
  | .armBatch batchId expectedDigests date => (s.armBatch batchId expectedDigests date).toOption
  | .recoverBatch batchId network accountUuid runId expectedTxids lightwalletdUrl date =>
    (s.recoverBatch batchId network accountUuid runId expectedTxids lightwalletdUrl
      date).toOption.map Prod.fst
  | .recoverInterruptedSubmissions date => some (s.recoverInterruptedSubmissions date)
  | .expireItems remoteHeight endpoint date => some (s.expireItems remoteHeight endpoint date)
  | .markDueItemsNeedingResign remoteHeight endpoint date =>
    some (s.markDueItemsNeedingResign remoteHeight endpoint date)
  | .submitDue remoteHeight endpoint attemptId date =>
    (s.submitDue remoteHeight endpoint attemptId date).toOption.map Prod.fst
  | .recordUncertain itemId error date => (s.recordUncertain itemId error date).toOption
  | .recordCancelledBeforeSubmission itemId error =>
    (s.recordCancelledBeforeSubmission itemId error).toOption
  | .recordAccepted itemId equivalent remoteHeight responseCode responseMessage date random =>
    (s.recordAccepted itemId equivalent remoteHeight responseCode responseMessage date
      random).toOption
  | .recordRejected itemId remoteHeight responseCode responseMessage date =>
    (s.recordRejected itemId remoteHeight responseCode responseMessage date).toOption
  | .markBroadcastCompleteIfNeeded batchId date =>
    some (s.markBroadcastCompleteIfNeeded batchId date)
  | .acknowledgeBroadcastCompleteNotification batchId date =>
    (s.acknowledgeBroadcastCompleteNotification batchId date).toOption
  | .discardBatch batchId => (s.discardBatch batchId).toOption.map Prod.fst
  | .acknowledgeReceipts receiptIds => some (s.acknowledgeReceipts receiptIds)

theorem toOption_eq_some {ε α : Type*} {x : Except ε α} {a : α} :
    x.toOption = some a ↔ x = .ok a := by
  cases x <;> simp [Except.toOption]

/-! ## Every operation -/

namespace Snapshot

variable {s s' : Snapshot} {digestHex : Bytes → String} {op : Op}

/-- Selecting changes the last scope only. -/
theorem selectDue_moves {remoteHeight : ℕ} {endpoint : Option String} {date : Date} :
    s.Moves Steady (s.selectDue remoteHeight endpoint date).1 [] :=
  Moves.of_same rfl rfl

/-- A submission begins one attempt, if anything is due. -/
theorem submitDue_eq_ok (hs : s.Corresponds) {remoteHeight : ℕ} {endpoint : Option String}
    {attemptId : String} {date : Date} {selection : Option Selection}
    (h : s.submitDue remoteHeight endpoint attemptId date = .ok (s', selection)) :
    (selection = none ∧ s.Moves Steady s' []) ∨
      ∃ chosen, selection = some chosen ∧ s.Moves (Submits chosen.item.itemId) s' [] ∧
        ∃ location, s.itemLocation chosen.item.itemId = .ok location := by
  unfold submitDue at h
  cases hselect : s.selectDue remoteHeight endpoint date with
  | mk selected chosen =>
    have hselected : selected = (s.selectDue remoteHeight endpoint date).1 := by rw [hselect]
    cases chosen with
    | none =>
      simp only [hselect, Except.ok.injEq, Prod.mk.injEq] at h
      obtain ⟨rfl, rfl⟩ := h
      exact .inl ⟨rfl, hselected ▸ selectDue_moves⟩
    | some chosen =>
      simp only [hselect, bind_eq_ok, pure_eq_ok, Prod.mk.injEq] at h
      obtain ⟨_, -, begun, hbegun, rfl, rfl⟩ := h
      have hmoves := beginSubmission_moves (s := selected) (by rw [hselected]; exact hs.itemIds)
        hbegun
      simp only [beginSubmission, bind_eq_ok] at hbegun
      obtain ⟨location, hlocation, -⟩ := hbegun
      refine .inr ⟨chosen, rfl, ⟨?_, ?_, hmoves.nodup, ?_⟩, location, ?_⟩
      · rw [hselected] at hmoves
        exact hmoves.batches
      · rw [hselected] at hmoves
        exact hmoves.receipts
      · rw [hselected] at hmoves
        exact hmoves.source
      · rw [hselected] at hlocation
        exact hlocation

end Snapshot

/-! ## Effects -/

/-- The operation begins no attempt, takes none back and acknowledges nothing. -/
def Op.IsSteady (s : Snapshot) : Op → Prop
  | .submitDue remoteHeight endpoint attemptId date =>
    (s.submitDue remoteHeight endpoint attemptId date).toOption.bind Prod.snd = none
  | .recordCancelledBeforeSubmission .. | .acknowledgeReceipts _ => False
  | _ => True

/-- What an operation does to a snapshot. -/
inductive Effect (s : Snapshot) : Op → Snapshot → Prop
  | steady {op : Op} {s' : Snapshot} {R : List Receipt} (hm : s.Moves Steady s' R)
      (hop : op.IsSteady s) : Effect s op s'
  | submits {remoteHeight : ℕ} {endpoint : Option String} {attemptId : String} {date : Date}
      {s' : Snapshot} {chosen : Selection} {batch : Batch} {item : Item}
      (hsubmit : s.submitDue remoteHeight endpoint attemptId date = .ok (s', some chosen))
      (hlocation : s.itemLocation chosen.item.itemId = .ok (batch, item))
      (hm : s.Moves (Submits chosen.item.itemId) s' []) :
    Effect s (.submitDue remoteHeight endpoint attemptId date) s'
  | cancels {itemId error : String} {s' : Snapshot} {batch : Batch} {item : Item}
      (hlocation : s.itemLocation itemId = .ok (batch, item))
      (hm : s.Moves (Cancels itemId) s' []) :
    Effect s (.recordCancelledBeforeSubmission itemId error) s'
  | grows {op : Op} {s' : Snapshot} (hg : s.Grows s') (hids : s'.itemIds.Nodup)
      (hop : op.IsSteady s) : Effect s op s'
  | shrinks {op : Op} {s' : Snapshot} (hshrinks : s.Shrinks s')
      (hkept : ∀ b ∈ s.batches, ∀ i ∈ b.items, 0 < i.attempts → b ∈ s'.batches)
      (hop : op.IsSteady s) : Effect s op s'
  | acknowledges {receiptIds : List String} :
    Effect s (.acknowledgeReceipts receiptIds) (s.acknowledgeReceipts receiptIds)

section Effect

variable {s s' : Snapshot} {digestHex : Bytes → String} {op : Op}

/-- A batch without receipts whose items were never submitted records no attempt. -/
theorem attempts_eq_zero_of_idle (hs : s.Corresponds) {batch : Batch} {item : Item}
    (hb : batch ∈ s.batches) (hi : item ∈ batch.items) (hsubmitting : item.status ≠ .submitting)
    (hcount : item.attemptCount = 0) (hnone : ∀ r ∈ s.receipts, r.batchId ≠ batch.batchId) :
    item.attempts = 0 := by
  by_contra hpos
  have hattempt : item.status.isAttempt := by
    by_contra hnot
    simp [Item.attempts, hcount, hnot] at hpos
  have hawaiting : item.status.isAwaiting := by
    cases hstatus : item.status <;> simp_all [ItemStatus.isAttempt, ItemStatus.isAwaiting]
  obtain ⟨r, hr, hof⟩ := hs.recorded batch hb item hi hawaiting
  exact hnone r hr hof.batchId

/-- Every operation has one of the effects. -/
theorem Op.effect (hs : s.Corresponds) (h : op.apply digestHex s = some s') : Effect s op s' := by
  cases op with
  | stageBatch batch =>
    simp only [Op.apply, bind_eq_some, toOption_eq_some] at h
    obtain ⟨staged, hstaged, h⟩ := h
    split_ifs at h with hids
    obtain rfl := Option.some.inj h
    exact .grows (Snapshot.stageBatch_grows hs.batchIds hstaged) hids trivial
  | armBatch batchId expectedDigests date =>
    exact .steady (Snapshot.armBatch_moves hs.batchIds (toOption_eq_some.1 h)) trivial
  | recoverBatch batchId network accountUuid runId expectedTxids lightwalletdUrl date =>
    obtain ⟨⟨recovered, found⟩, hrecovered, rfl⟩ := Option.map_eq_some_iff.1 h
    exact .steady (Snapshot.recoverBatch_moves hs.batchIds (toOption_eq_some.1 hrecovered)) trivial
  | recoverInterruptedSubmissions date =>
    obtain rfl := Option.some.inj h
    exact .steady Snapshot.recoverInterruptedSubmissions_moves trivial
  | expireItems remoteHeight endpoint date =>
    obtain rfl := Option.some.inj h
    obtain ⟨R, hm⟩ := Snapshot.expireItems_moves hs.itemIds
    exact .steady hm trivial
  | markDueItemsNeedingResign remoteHeight endpoint date =>
    obtain rfl := Option.some.inj h
    obtain ⟨R, hm⟩ := Snapshot.markDueItemsNeedingResign_moves hs.itemIds
    exact .steady hm trivial
  | submitDue remoteHeight endpoint attemptId date =>
    obtain ⟨⟨submitted, selection⟩, hsubmit, rfl⟩ := Option.map_eq_some_iff.1 h
    have hok := toOption_eq_some.1 hsubmit
    obtain ⟨rfl, hm⟩ | ⟨chosen, rfl, hm, ⟨batch, item⟩, hlocation⟩ :=
      Snapshot.submitDue_eq_ok hs hok
    · exact .steady hm (by simp [Op.IsSteady, hsubmit])
    · exact .submits hok hlocation hm
  | recordUncertain itemId error date =>
    exact .steady (Snapshot.recordUncertain_moves hs.itemIds (toOption_eq_some.1 h)) trivial
  | recordCancelledBeforeSubmission itemId error =>
    have hok := toOption_eq_some.1 h
    obtain ⟨⟨batch, item⟩, hlocation, -⟩ := bind_eq_ok.1 hok
    exact .cancels hlocation (Snapshot.recordCancelledBeforeSubmission_moves hs.itemIds hok)
  | recordAccepted itemId equivalent remoteHeight responseCode responseMessage date random =>
    obtain ⟨r, hm⟩ := Snapshot.recordAccepted_moves hs.itemIds (toOption_eq_some.1 h)
    exact .steady hm trivial
  | recordRejected itemId remoteHeight responseCode responseMessage date =>
    obtain ⟨r, hm⟩ := Snapshot.recordRejected_moves hs.itemIds (toOption_eq_some.1 h)
    exact .steady hm trivial
  | markBroadcastCompleteIfNeeded batchId date =>
    obtain rfl := Option.some.inj h
    exact .steady (Snapshot.markBroadcastCompleteIfNeeded_moves hs.batchIds) trivial
  | acknowledgeBroadcastCompleteNotification batchId date =>
    obtain hm | ⟨hshrinks, hkept⟩ :=
      Snapshot.acknowledgeBroadcastCompleteNotification_cases hs (toOption_eq_some.1 h)
    · exact .steady hm trivial
    · exact .shrinks hshrinks (fun b hb i hi _ => hkept b hb (List.ne_nil_of_mem hi)) trivial
  | discardBatch batchId =>
    obtain ⟨⟨discarded, found⟩, hdiscard, rfl⟩ := Option.map_eq_some_iff.1 h
    obtain rfl | ⟨batch, hfind, hitems, hnone, hbatches, hreceipts⟩ :=
      Snapshot.discardBatch_eq_ok (toOption_eq_some.1 hdiscard)
    · exact .steady (Snapshot.Moves.of_same rfl rfl) trivial
    · refine .shrinks (Snapshot.eraseP_shrinks hbatches hreceipts hnone) ?_ trivial
      intro b hb i hi hpos
      have hne : b.batchId ≠ batchId := by
        intro heq
        obtain rfl := eq_of_find?_eq_some (Snapshot.pairwise_batchId hs.batchIds batchId) hfind hb
          (decide_eq_true heq)
        obtain ⟨hsubmitting, hcount⟩ := hitems i hi
        have hzero := attempts_eq_zero_of_idle hs hb hi hsubmitting hcount (heq ▸ hnone)
        omega
      exact hbatches ▸ Snapshot.mem_eraseP_batchId hne hb
  | acknowledgeReceipts receiptIds =>
    obtain rfl := Option.some.inj h
    exact .acknowledges

theorem Effect.corresponds (h : Effect s op s') (hs : s.Corresponds) : s'.Corresponds := by
  cases h with
  | steady hm => exact hm.corresponds hs
  | submits _ _ hm => exact hm.corresponds hs
  | cancels _ hm => exact hm.corresponds hs
  | grows hg hids => exact hg.corresponds hids hs
  | shrinks hshrinks => exact hshrinks.corresponds hs
  | acknowledges => exact (Snapshot.acknowledgeReceipts_shrinks hs _).corresponds hs

end Effect

end VizorWallet.Outbox
