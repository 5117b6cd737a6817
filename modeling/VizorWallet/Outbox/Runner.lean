import VizorWallet.Outbox.Attempts

/-!
# The runner and the app

One runner at a time works on the snapshot, while the app stages, recovers, discards and
acknowledges between any two of its updates, and the process may stop at any point.

## Main definitions

* `runnerSystem` — the runner and the app.
* `SubmitsAlone` — a submission begins only while nothing is in flight.
* `RunnerSystem.Refines` — the runner's snapshot is one of such runs of the outbox.

## Main results

* `corresponds_of_reachable` — receipts and items correspond in every run of the outbox.
* `submittingOnly_of_reaches` — one item at most is in flight when submissions begin alone.
* `RunnerSystem.refines_of_reachable` — the runner and the app reach such snapshots only.
-/

namespace VizorWallet.Outbox

/-- Where the runner is. -/
inductive RunnerState where
  | idle
  | inspecting
  | submitting (batchId itemId : String)

structure RunnerSystem where
  snapshot : Snapshot := {}
  runner : RunnerState := .idle

/-- What the app asks for. -/
inductive AppCall where
  | stageBatch (batch : IncomingBatch)
  | armBatch (batchId : String) (expectedDigests : List (String × String)) (date : Date)
  | recoverBatch (batchId network accountUuid runId : String) (expectedTxids : List String)
      (lightwalletdUrl : String) (date : Date)
  | discardBatch (batchId : String)
  | acknowledgeReceipts (receiptIds : List String)
  | acknowledgeBroadcastCompleteNotification (batchId : String) (date : Date)

def AppCall.op : AppCall → Op
  | stageBatch batch => .stageBatch batch
  | armBatch batchId expectedDigests date => .armBatch batchId expectedDigests date
  | recoverBatch batchId network accountUuid runId expectedTxids lightwalletdUrl date =>
    .recoverBatch batchId network accountUuid runId expectedTxids lightwalletdUrl date
  | discardBatch batchId => .discardBatch batchId
  | acknowledgeReceipts receiptIds => .acknowledgeReceipts receiptIds
  | acknowledgeBroadcastCompleteNotification batchId date =>
    .acknowledgeBroadcastCompleteNotification batchId date

/-- How a selected submission ends. -/
inductive SubmissionOutcome where
  | cancelled (error : String)
  | failed (error : String) (date : Date)
  | accepted (equivalent : Bool) (remoteHeight : ℕ) (responseCode : ℤ) (responseMessage : String)
      (date : Date) (random : Random)
  | rejected (remoteHeight : ℕ) (responseCode : ℤ) (responseMessage : String) (date : Date)

/-- The operations of one store update. -/
def SubmissionOutcome.ops (batchId itemId : String) : SubmissionOutcome → List Op
  | cancelled error => [.recordCancelledBeforeSubmission itemId error]
  | failed error date => [.recordUncertain itemId error date]
  | accepted equivalent remoteHeight responseCode responseMessage date random =>
    [.recordAccepted itemId equivalent remoteHeight responseCode responseMessage date random,
      .markBroadcastCompleteIfNeeded batchId date]
  | rejected remoteHeight responseCode responseMessage date =>
    [.recordRejected itemId remoteHeight responseCode responseMessage date]

inductive RunnerEvent where
  | app (call : AppCall)
  | beginRun (date : Date)
  | select (remoteHeight : ℕ) (endpoint attemptId : String) (date : Date)
  | record (outcome : SubmissionOutcome)
  /-- The run ends, the store is not available, or the process stops. -/
  | stop

/-- The item that an operation puts in flight. -/
def Op.chosen (s : Snapshot) : Op → Option Selection
  | .submitDue remoteHeight endpoint attemptId date =>
    (s.submitDue remoteHeight endpoint attemptId date).toOption.bind Prod.snd
  | _ => none

theorem Op.IsSteady.chosen {s : Snapshot} {op : Op} (h : op.IsSteady s) : op.chosen s = none := by
  cases op with
  | submitDue => exact h
  | _ => rfl

/-- The second update of a run: what the height does, and the selection. -/
def selectAtHeight (s : Snapshot) (remoteHeight : ℕ) (endpoint attemptId : String)
    (date : Date) : Except OutboxError (Snapshot × Option Selection) :=
  ((s.expireItems remoteHeight endpoint date).markDueItemsNeedingResign remoteHeight endpoint
    date).submitDue remoteHeight (some endpoint) attemptId date

def runnerSystem (digestHex : Bytes → String) : Transition RunnerSystem RunnerEvent where
  init := {}
  step
    | ⟨s, runner⟩, .app call => (call.op.apply digestHex s).map fun s' => ⟨s', runner⟩
    | ⟨s, .idle⟩, .beginRun date => some ⟨s.recoverInterruptedSubmissions date, .inspecting⟩
    | ⟨s, .inspecting⟩, .select remoteHeight endpoint attemptId date =>
      match selectAtHeight s remoteHeight endpoint attemptId date with
      | .ok (s', some chosen) => some ⟨s', .submitting chosen.batchId chosen.item.itemId⟩
      | .ok (s', none) => some ⟨s', .idle⟩
      | .error _ => some ⟨s, .idle⟩
    | ⟨s, .submitting batchId itemId⟩, .record outcome =>
      some ⟨((outcome.ops batchId itemId).foldlM (Op.apply digestHex) s).getD s,
        .idle⟩
    | ⟨s, _⟩, .stop => some ⟨s, .idle⟩
    | _, _ => none

namespace Snapshot

variable {s s' : Snapshot} {digestHex : Bytes → String} {op : Op}

/-- An item in flight is the given one. -/
def SubmittingOnly (s : Snapshot) (itemId : Option String) : Prop :=
  ∀ batch ∈ s.batches, ∀ item ∈ batch.items, item.status = .submitting →
    itemId = some item.itemId

theorem SubmittingOnly.of_moves {δ : Item → Item → Prop} {R : List Receipt} {itemId : Option String}
    (h : s.SubmittingOnly itemId) (hm : s.Moves δ s' R)
    (hδ : ∀ i i', δ i i' → i'.status = .submitting → i.status = .submitting) :
    s'.SubmittingOnly itemId := by
  intro b' hb' i' hi' hsubmitting
  obtain ⟨b, hb, hbb⟩ := exists_mem_left hm.batches hb'
  obtain ⟨i, hi, hii, hmove⟩ := exists_mem_left hbb.items hi'
  rw [hii.itemId]
  exact h b hb i hi (hδ i i' hmove hsubmitting)

theorem SubmittingOnly.of_subset {itemId : Option String} (h : s.SubmittingOnly itemId)
    (hsub : ∀ b' ∈ s'.batches, ∀ i ∈ b'.items, i.status = .submitting →
      ∃ b ∈ s.batches, i ∈ b.items) : s'.SubmittingOnly itemId := by
  intro b' hb' i hi hsubmitting
  obtain ⟨b, hb, hi⟩ := hsub b' hb' i hi hsubmitting
  exact h b hb i hi hsubmitting

/-- Only a submission puts an item in flight. -/
theorem SubmittingOnly.effect {itemId : Option String} (h : s.SubmittingOnly itemId)
    (hs : s.Corresponds) (heffect : Effect s op s') (hop : op.chosen s = none) :
    s'.SubmittingOnly itemId := by
  cases heffect with
  | steady hm => exact h.of_moves hm fun _ _ hsteady => hsteady.submitting
  | submits hsubmit => simp [Op.chosen, hsubmit, Except.toOption] at hop
  | cancels _ hm => exact h.of_moves hm fun _ _ hcancels => hcancels.submitting
  | grows hg =>
    refine h.of_subset fun b' hb' i hi hsubmitting => ?_
    obtain ⟨hstaged, -⟩ | ⟨b, hb, -, hi⟩ := hg.fresh b' hb' i hi
    · rw [hstaged] at hsubmitting
      cases hsubmitting
    · exact ⟨b, hb, hi⟩
  | shrinks hshrinks =>
    refine h.of_subset fun b' hb' i hi _ => ?_
    obtain ⟨b, hb, -, hsub⟩ := hshrinks.subset b' hb'
    exact ⟨b, hb, hsub i hi⟩
  | acknowledges =>
    refine h.of_subset fun b' hb' i hi _ => ?_
    obtain ⟨b, hb, -, hsub⟩ := (acknowledgeReceipts_shrinks hs _).subset b' hb'
    exact ⟨b, hb, hsub i hi⟩

/-- A submission puts one item in flight. -/
theorem SubmittingOnly.submits (h : s.SubmittingOnly none) {itemId : String}
    (hm : s.Moves (Submits itemId) s' []) : s'.SubmittingOnly (some itemId) := by
  intro b' hb' i' hi' hsubmitting
  obtain ⟨b, hb, hbb⟩ := exists_mem_left hm.batches hb'
  obtain ⟨i, hi, hii, hmove⟩ := exists_mem_left hbb.items hi'
  rw [hii.itemId]
  obtain hold | hid := hmove.submitting hsubmitting
  · cases h b hb i hi hold
  · rw [hid]

theorem submittingOnly_recoverInterrupted {date : Date} :
    (s.recoverInterruptedSubmissions date).SubmittingOnly none := by
  intro b' hb' i' hi' hsubmitting
  obtain ⟨b, -, rfl⟩ := List.mem_map.1 hb'
  obtain ⟨i, -, rfl⟩ := List.mem_map.1 hi'
  split_ifs at hsubmitting with hstatus
  · cases hsubmitting
  · exact absurd hsubmitting hstatus

end Snapshot

/-! ## Submissions that begin alone -/

/-- Nothing is in flight when a submission begins. -/
def SubmitsAlone (t : Traced) (op : Op) : Prop :=
  (op.chosen t.snapshot).isSome → t.snapshot.SubmittingOnly none

section Outbox

variable {digestHex : Bytes → String} {t t' : Traced} {s' : Snapshot}

/-- Receipts and items correspond after any operations in any order. -/
theorem corresponds_of_reachable (h : (outbox digestHex).Reachable t) :
    t.snapshot.Corresponds := by
  refine h.invariant (I := fun t => t.snapshot.Corresponds) Snapshot.corresponds_empty ?_
  intro t op t' hs _ hstep
  obtain ⟨s', happly, rfl⟩ := Option.map_eq_some_iff.1 hstep
  exact (Op.effect hs happly).corresponds hs

/-- One operation that puts nothing in flight beside something else. -/
theorem SubmitsAlone.step {op : Op} (hok : SubmitsAlone t op) (hs : t.snapshot.Corresponds)
    (h : ∃ itemId, t.snapshot.SubmittingOnly itemId)
    (hstep : (outbox digestHex).step t op = some t') :
    ∃ itemId, t'.snapshot.SubmittingOnly itemId := by
  obtain ⟨s', happly, rfl⟩ := Option.map_eq_some_iff.1 hstep
  obtain ⟨itemId, honly⟩ := h
  have heffect := Op.effect hs happly
  cases hchosen : op.chosen t.snapshot with
  | none => exact ⟨itemId, honly.effect hs heffect hchosen⟩
  | some chosen =>
    have halone : t.snapshot.SubmittingOnly none := hok (by rw [hchosen]; rfl)
    cases heffect with
    | submits _ _ hm => exact ⟨_, halone.submits hm⟩
    | steady _ hop => cases hop.chosen.symm.trans hchosen
    | grows _ _ hop => cases hop.chosen.symm.trans hchosen
    | shrinks _ _ hop => cases hop.chosen.symm.trans hchosen
    | cancels => cases hchosen
    | acknowledges => cases hchosen

/-- In runs of such operations one item at most is in flight. -/
theorem submittingOnly_of_reaches (h : (outbox digestHex).Reaches SubmitsAlone t) :
    ∃ itemId, t.snapshot.SubmittingOnly itemId := by
  have hboth : t.snapshot.Corresponds ∧ ∃ itemId, t.snapshot.SubmittingOnly itemId := by
    refine h.invariant
      (I := fun t : Traced =>
        t.snapshot.Corresponds ∧ ∃ itemId, t.snapshot.SubmittingOnly itemId)
      ⟨Snapshot.corresponds_empty, none, fun _ hb => absurd hb List.not_mem_nil⟩ ?_
    rintro t op t' ⟨hs, honly⟩ hok hstep
    refine ⟨?_, hok.step hs honly hstep⟩
    obtain ⟨s', happly, rfl⟩ := Option.map_eq_some_iff.1 hstep
    exact (Op.effect hs happly).corresponds hs
  exact hboth.2

/-- Several operations of one update, none of which begins a submission. -/
theorem exists_reaches (h : (outbox digestHex).Reaches SubmitsAlone t) {ops : List Op}
    (hops : ∀ op ∈ ops, ∀ s, op.chosen s = none)
    (hrun : ops.foldlM (Op.apply digestHex) t.snapshot = some s') :
    ∃ t', (outbox digestHex).Reaches SubmitsAlone t' ∧ t'.snapshot = s' ∧
      ∀ itemId, t.snapshot.SubmittingOnly itemId → s'.SubmittingOnly itemId := by
  induction ops generalizing t with
  | nil =>
    obtain rfl := Option.some.inj hrun
    exact ⟨t, h, rfl, fun _ => id⟩
  | cons op ops ih =>
    obtain ⟨m, hm, hrest⟩ := bind_eq_some.1 hrun
    obtain ⟨hop, hops⟩ := List.forall_mem_cons.1 hops
    have hs := corresponds_of_reachable h.reachable
    have hnext : (outbox digestHex).Reaches SubmitsAlone ⟨m, t.history.after t.snapshot op⟩ := by
      refine h.step (fun hchosen => ?_) (Option.map_eq_some_iff.2 ⟨m, hm, rfl⟩)
      rw [hop] at hchosen
      cases hchosen
    obtain ⟨t', ht', hsnapshot, hkeeps⟩ := ih hnext hops hrest
    exact ⟨t', ht', hsnapshot, fun itemId honly =>
      hkeeps itemId (honly.effect hs (Op.effect hs hm) (hop _))⟩

end Outbox

/-! ## Runs of the system -/

/-- The snapshot is one of the outbox whose submissions begin alone, and nothing is in flight while
the runner looks for work. -/
structure RunnerSystem.Refines (digestHex : Bytes → String) (sys : RunnerSystem) (t : Traced) :
    Prop where
  reaches : (outbox digestHex).Reaches SubmitsAlone t
  snapshot : t.snapshot = sys.snapshot
  inspecting : sys.runner = .inspecting → sys.snapshot.SubmittingOnly none

section System

variable {digestHex : Bytes → String} {sys sys' : RunnerSystem} {t : Traced} {s s' : Snapshot}

theorem AppCall.chosen_op (call : AppCall) : call.op.chosen s = none := by
  cases call <;> rfl

theorem SubmissionOutcome.chosen_ops {outcome : SubmissionOutcome} {batchId itemId : String} :
    ∀ op ∈ outcome.ops batchId itemId, ∀ s, op.chosen s = none := by
  cases outcome <;> simp [SubmissionOutcome.ops, Op.chosen]

/-- The second update of a run is three operations of the outbox, of which the last may begin a
submission. -/
theorem selectAtHeight_reaches (h : (outbox digestHex).Reaches SubmitsAlone t)
    (honly : t.snapshot.SubmittingOnly none) {remoteHeight : ℕ} {endpoint attemptId : String}
    {date : Date} {chosen : Option Selection}
    (hselect : selectAtHeight t.snapshot remoteHeight endpoint attemptId date =
      .ok (s', chosen)) :
    ∃ t', (outbox digestHex).Reaches SubmitsAlone t' ∧ t'.snapshot = s' := by
  have hrun : [Op.expireItems remoteHeight endpoint date,
      .markDueItemsNeedingResign remoteHeight endpoint date].foldlM (Op.apply digestHex)
        t.snapshot = some ((t.snapshot.expireItems remoteHeight endpoint
          date).markDueItemsNeedingResign remoteHeight endpoint date) := rfl
  obtain ⟨m, hm, hsnapshot, hkeeps⟩ := exists_reaches h (by simp [Op.chosen]) hrun
  have happly : Op.apply digestHex m.snapshot
      (.submitDue remoteHeight (some endpoint) attemptId date) = some s' := by
    unfold selectAtHeight at hselect
    rw [hsnapshot, Op.apply, hselect]
    rfl
  refine ⟨_, hm.step (fun _ => ?_) (Option.map_eq_some_iff.2 ⟨s', happly, rfl⟩), rfl⟩
  rw [hsnapshot]
  exact hkeeps none honly

/-- One step of the runner or of the app is none, or several of the outbox. -/
theorem RunnerSystem.Refines.step (h : sys.Refines digestHex t) {event : RunnerEvent}
    (hstep : (runnerSystem digestHex).step sys event = some sys') :
    ∃ t', sys'.Refines digestHex t' := by
  obtain ⟨s, runner⟩ := sys
  obtain ⟨hreaches, rfl, hinspecting⟩ := h
  have hs := corresponds_of_reachable hreaches.reachable
  cases event with
  | app call =>
    obtain ⟨s', happly, rfl⟩ := Option.map_eq_some_iff.1 hstep
    have hrun : [call.op].foldlM (Op.apply digestHex) t.snapshot = some s' := by simp [happly]
    obtain ⟨t', ht', rfl, hkeeps⟩ := exists_reaches hreaches (by simp [AppCall.chosen_op]) hrun
    exact ⟨t', ht', rfl, fun hrunner => hkeeps none (hinspecting hrunner)⟩
  | beginRun date =>
    cases runner <;> cases hstep
    have hrun : [Op.recoverInterruptedSubmissions date].foldlM (Op.apply digestHex) t.snapshot =
        some (t.snapshot.recoverInterruptedSubmissions date) := rfl
    obtain ⟨t', ht', hsnapshot, -⟩ := exists_reaches hreaches (by simp [Op.chosen]) hrun
    exact ⟨t', ht', hsnapshot, fun _ => Snapshot.submittingOnly_recoverInterrupted⟩
  | select remoteHeight endpoint attemptId date =>
    cases runner with
    | idle => cases hstep
    | submitting => cases hstep
    | inspecting =>
      simp only [runnerSystem] at hstep
      cases hselect : selectAtHeight t.snapshot remoteHeight endpoint attemptId date with
      | error =>
        simp only [hselect] at hstep
        cases hstep
        exact ⟨t, hreaches, rfl, nofun⟩
      | ok selected =>
        obtain ⟨s', chosen⟩ := selected
        obtain ⟨t', ht', rfl⟩ := selectAtHeight_reaches hreaches (hinspecting rfl) hselect
        cases chosen <;> simp only [hselect] at hstep <;> cases hstep <;>
          exact ⟨t', ht', rfl, nofun⟩
  | record outcome =>
    cases runner with
    | idle => cases hstep
    | inspecting => cases hstep
    | submitting batchId itemId =>
      cases hstep
      cases hrun : (outcome.ops batchId itemId).foldlM (Op.apply digestHex) t.snapshot with
      | none => exact ⟨t, hreaches, rfl, nofun⟩
      | some s' =>
        obtain ⟨t', ht', rfl, -⟩ := exists_reaches hreaches SubmissionOutcome.chosen_ops hrun
        exact ⟨t', ht', rfl, nofun⟩
  | stop =>
    cases runner <;> cases hstep <;> exact ⟨t, hreaches, rfl, nofun⟩

/-- The runner and the app reach snapshots that the outbox reaches with submissions that begin
alone. -/
theorem RunnerSystem.refines_of_reachable (h : (runnerSystem digestHex).Reachable sys) :
    ∃ t, sys.Refines digestHex t := by
  refine h.invariant (I := fun sys => ∃ t, sys.Refines digestHex t)
    ⟨{}, .init, rfl, nofun⟩ ?_
  rintro sys event sys' ⟨t, hrefines⟩ _ hstep
  exact hrefines.step hstep

end System

end VizorWallet.Outbox
