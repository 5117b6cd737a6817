import VizorWallet.Ledger.Broadcast

/-!
# What operations do to the outbox

Each operation is described by what it leaves of the rows of the outbox and of the reservations, and
each broadcast by what it has sent when it has a result.

## Main definitions

* `LeavesOutbox` — the operations that do not write the outbox.
* `BroadcastCase` — how a broadcast may come to its result.

## Main results

* `leavesOutbox`, `checkpoint_spec`, `apply_spec`, `failure_spec`
* `storeAndBroadcast_cases` — every broadcast is one of the cases.
-/

namespace VizorWallet.Ledger

open Send

variable {world state : World}

/-! ## Operations of the wallet -/

/-- An operation that does not record results leaves the outbox as it is at each commit. -/
def LeavesOutbox (world : World) (states : List World) : Prop :=
  ∀ state ∈ states, state.outbox.operations = world.outbox.operations

theorem LeavesOutbox.last {states : List World} (h : LeavesOutbox world states) :
    (world.last states).outbox.operations = world.outbox.operations := by
  obtain hsame | hmem := @last_eq_or_mem world states
  · rw [hsame]
  · exact h _ hmem

theorem unlock_leaves {proposalId : ℕ} {sendFlowId : String} {allowDurable : Bool} :
    LeavesOutbox world (unlockStoredProposalLocked proposalId sendFlowId allowDurable world) := by
  intro state h
  unfold unlockStoredProposalLocked at h
  grind [World.withRows, World.forgetLock]

theorem finishInner_leaves {proposalId : ℕ} {sendFlowId : String}
    {releaseInputs allowDurable : Bool} : LeavesOutbox world
      (finishStoredProposalInner proposalId sendFlowId releaseInputs allowDurable world) := by
  unfold finishStoredProposalInner
  split
  · exact nofun
  · dsimp only
    split_ifs
    · exact nofun
    · exact unlock_leaves
    · grind [LeavesOutbox, World.withRows, World.forgetLock]

theorem discard_leaves {proposalId : ℕ} {sendFlowId : String} :
    LeavesOutbox world (discardStoredProposal proposalId sendFlowId world) := by
  unfold discardStoredProposal
  split
  · dsimp only
    split_ifs
    · exact List.forall_mem_cons.2 ⟨rfl, finishInner_leaves⟩
    · exact nofun
  · exact finishInner_leaves

theorem begin_leaves {proposalId : ℕ} {sendFlowId : String} {live : Bool} :
    LeavesOutbox world (beginPczt proposalId sendFlowId live world) := by
  have hfinish : LeavesOutbox world (world.forgetProposal proposalId ::
      finishStoredProposal proposalId sendFlowId true (world.forgetProposal proposalId)) :=
    List.forall_mem_cons.2 ⟨rfl, finishInner_leaves⟩
  unfold beginPczt
  split
  · exact nofun
  · split
    · exact nofun
    · split
      · exact nofun
      · dsimp only
        split
        · exact hfinish
        · split
          · exact List.forall_mem_singleton.2 rfl
          · exact hfinish

theorem finishPczt_leaves {proposalId liveExpiryHeight : ℕ} {refused created : Bool} :
    LeavesOutbox world (finishPczt proposalId liveExpiryHeight refused created world) := by
  have hfail {other : World} {sendFlowId : String}
      (hother : other.outbox.operations = world.outbox.operations) :
      LeavesOutbox world
        (other :: finishStoredProposal proposalId sendFlowId true other) := by
    exact List.forall_mem_cons.2
      ⟨hother, fun state hstate => (finishInner_leaves state hstate).trans hother⟩
  unfold finishPczt
  split
  · exact nofun
  · dsimp only
    split
    · exact hfail rfl
    · split
      · exact hfail rfl
      · split
        · exact hfail rfl
        · split
          · grind [LeavesOutbox, World.withRows]
          · exact List.forall_mem_cons.2 ⟨rfl, hfail rfl⟩

theorem shutdownCleanup_leaves {reached : List ℕ} :
    LeavesOutbox world (shutdownCleanup reached world) := by
  induction reached generalizing world with
  | nil => exact nofun
  | cons proposalId rest ih =>
    have hone : LeavesOutbox world (cleanupOne proposalId world) := by
      unfold cleanupOne
      split
      · exact nofun
      · exact unlock_leaves
    intro state hstate
    rw [shutdownCleanup] at hstate
    obtain hcleaned | hrest := List.mem_append.1 hstate
    · exact hone state hcleaned
    · exact (ih state hrest).trans hone.last

theorem recoverPrevious_leaves {targetHeight : Option ℕ} :
    LeavesOutbox world (recoverPreviousProcess targetHeight world) := by
  unfold recoverPreviousProcess
  split
  · exact nofun
  · grind [LeavesOutbox, World.withRows]

theorem propose_leaves {sendFlowId : String} {owner : LockOwner} {inputs : List OutputRef}
    {expiryHeight : ℕ} {refused : Bool} :
    LeavesOutbox world (proposeSend sendFlowId owner inputs expiryHeight refused world) := by
  unfold proposeSend
  grind [LeavesOutbox, World.withRows]

theorem retain_leaves {proposalId : ℕ} {sendFlowId : String} :
    LeavesOutbox world (retainStoredProposalLockUntilExpiry proposalId sendFlowId world) := by
  unfold retainStoredProposalLockUntilExpiry
  grind [LeavesOutbox, World.withRows, World.forgetLock, World.forgetProposal]

theorem markStarted_leaves {proposalId : ℕ} {sendFlowId : String} :
    LeavesOutbox world (markProposalBroadcastStarted proposalId sendFlowId world) := by
  unfold markProposalBroadcastStarted
  grind [LeavesOutbox, World.withRows]

/-- The operations that write the outbox. -/
def writesOutbox : SendOperation → Bool
  | .checkpointBatch _ _ _ _ _ _ | .applyBroadcastOutcome _ _ _
  | .recordBroadcastFailure _ _ => true
  | _ => false

theorem leavesOutbox {operation : SendOperation} (h : ¬ writesOutbox operation) :
    LeavesOutbox world (operation.states world) := by
  cases operation with
  | proposeSend => exact propose_leaves
  | beginPczt => exact begin_leaves
  | finishPczt => exact finishPczt_leaves
  | markBroadcastStarted => exact markStarted_leaves
  | discard => exact discard_leaves
  | finish => exact finishInner_leaves
  | retain => exact retain_leaves
  | shutdown => exact List.forall_mem_cons.2 ⟨rfl, shutdownCleanup_leaves⟩
  | recoverBeforeBalance => exact @recoverPrevious_leaves world none
  | _ => exact absurd rfl h

/-! ## Checkpoints and results -/

variable {outbox outbox' : Outbox} {operationId : String} {operation : Operation}

/-- A new operation is pending, and has a new name. -/
theorem checkpoint_spec {session : SessionId} {shuttingDown : Bool} {validate : Except String Unit}
    {accountUuid : String} {kind : OperationKind} {externalRef : Option String}
    {rounds : List SignedRound} (h : checkpointBatch session shuttingDown validate operationId
      accountUuid kind externalRef rounds outbox = .ok outbox') :
    outbox' = outbox ∨ ∃ new : Operation, outbox'.operations = outbox.operations ++ [new] ∧
      outbox.find new.operationId = none ∧ new.rounds ≠ [] ∧
      new.state = .signedPendingBroadcast := by
  simp only [checkpointBatch, bind_eq_ok] at h
  obtain ⟨-, -, -, -, -, -, expiryHeight, hexpiry, -, -, -, -, h⟩ := h
  split at h
  · simp only [bind_eq_ok, pure_eq_ok] at h
    obtain ⟨-, -, rfl⟩ := h
    exact .inl rfl
  · rename_i hfind
    simp only [bind_eq_ok, pure_eq_ok] at h
    obtain ⟨rows, -, rfl⟩ := h
    refine .inr ⟨_, rfl, hfind, ?_, rfl⟩
    rintro rfl
    cases hexpiry

/-- A result of an operation: no other operation and no other reservation is touched. -/
structure Records (operationId : String) (update : Operation → Operation)
    (outbox outbox' : Outbox) : Prop where
  others : ∀ operation ∈ outbox.operations, operation.operationId ≠ operationId →
    operation ∈ outbox'.operations
  origin : ∀ new ∈ outbox'.operations, new ∈ outbox.operations ∨
    ∃ operation ∈ outbox.operations, operation.operationId = operationId ∧ new = update operation
  ids : (outbox'.operations.map Operation.operationId).Sublist
    (outbox.operations.map Operation.operationId)
  rows : ∀ row ∈ outbox.rows, row.metadata.operationId ≠ some operationId → row ∈ outbox'.rows

/-- The row of an operation with its result. -/
def Operation.withResult (outcome : BroadcastOutcome) (operation : Operation) : Operation :=
  { operation with
    state := .resultPendingAck
    txid := some outcome.txids
    status := some outcome.status
    message := outcome.message }

/-- The row of an operation that failed and may be tried again. -/
def Operation.withFailure (message : String) (operation : Operation) : Operation :=
  { operation with status := some .retryableError, message := some message }

theorem mem_releaseOperation {rows : List LockRow} {row : LockRow} (hrow : row ∈ rows)
    (hother : row.metadata.operationId ≠ some operationId) :
    row ∈ releaseOperation operationId rows :=
  mem_updateRows.2 ⟨row, hrow, by rw [if_neg (by simpa using hother)]⟩

/-- An outbox whose matching rows are updated. -/
theorem records_map {changes : Operation → Bool} {update : Operation → Operation}
    {rows : List LockRow} (hchanges : ∀ operation, changes operation →
      operation.operationId = operationId)
    (hupdate : ∀ operation, (update operation).operationId = operation.operationId)
    (hrows : ∀ row ∈ outbox.rows, row.metadata.operationId ≠ some operationId → row ∈ rows) :
    Records operationId update outbox ⟨outbox.operations.map fun operation =>
      if changes operation then update operation else operation, rows⟩ where
  others operation hoperation hother := by
    refine List.mem_map.2 ⟨operation, hoperation, if_neg fun hchange => ?_⟩
    exact hother (hchanges operation hchange)
  origin new hnew := by
    obtain ⟨operation, hoperation, rfl⟩ := List.mem_map.1 hnew
    split_ifs with hchange
    · exact .inr ⟨operation, hoperation, hchanges operation hchange, rfl⟩
    · exact .inl hoperation
  ids := by
    have hsame : (outbox.operations.map fun operation =>
        if changes operation then update operation else operation).map Operation.operationId =
        outbox.operations.map Operation.operationId := by
      rw [List.map_map]
      refine List.map_congr_left fun operation _ => ?_
      dsimp only [Function.comp]
      split_ifs
      · exact hupdate operation
      · rfl
    dsimp only
    rw [hsame]
  rows := hrows

/-- An outbox whose matching rows are deleted. -/
theorem records_filter {changes : Operation → Bool} {update : Operation → Operation}
    {rows : List LockRow} (hchanges : ∀ operation, changes operation →
      operation.operationId = operationId)
    (hrows : ∀ row ∈ outbox.rows, row.metadata.operationId ≠ some operationId → row ∈ rows) :
    Records operationId update outbox
      ⟨outbox.operations.filter fun operation => !changes operation, rows⟩ where
  others operation hoperation hother := by
    refine List.mem_filter.2 ⟨hoperation, ?_⟩
    grind
  origin new hnew := .inl (List.mem_of_mem_filter hnew)
  ids := List.filter_sublist.map _
  rows := hrows

theorem apply_records {kind : OperationKind} {outcome : BroadcastOutcome}
    (h : applyBroadcastOutcome operationId kind outcome outbox = .ok outbox') :
    Records operationId (Operation.withResult outcome) outbox outbox' := by
  simp only [applyBroadcastOutcome, bind_eq_ok, pure_eq_ok] at h
  obtain ⟨-, -, rfl⟩ := h
  have hchanges : ∀ operation : Operation, decide (operation.operationId = operationId ∧
      (isCleanTerminal kind outcome.status ∨ operation.state = .signedPendingBroadcast)) →
      operation.operationId = operationId :=
    fun _ hchange => (of_decide_eq_true hchange).1
  have hrows : ∀ row ∈ outbox.rows, row.metadata.operationId ≠ some operationId → row ∈
      if outcome.status = .broadcasted ∨ outcome.status = .expired then
        releaseOperation operationId outbox.rows else outbox.rows := by
    intro row hrow hother
    split_ifs
    · exact mem_releaseOperation hrow hother
    · exact hrow
  by_cases hterminal : isCleanTerminal kind outcome.status
  · rw [if_pos hterminal]
    exact records_filter hchanges hrows
  · rw [if_neg hterminal]
    exact records_map hchanges (fun _ => rfl) hrows

/-- Unless the result ends it, the operation waits for an acknowledgement. -/
theorem apply_stays {kind : OperationKind} {outcome : BroadcastOutcome}
    (h : applyBroadcastOutcome operationId kind outcome outbox = .ok outbox')
    (hterminal : ¬ isCleanTerminal kind outcome.status) (hmem : operation ∈ outbox.operations)
    (hid : operation.operationId = operationId)
    (hstate : operation.state = .signedPendingBroadcast) :
    operation.withResult outcome ∈ outbox'.operations := by
  simp only [applyBroadcastOutcome, bind_eq_ok, pure_eq_ok] at h
  obtain ⟨-, -, rfl⟩ := h
  rw [if_neg hterminal]
  exact List.mem_map.2 ⟨operation, hmem, if_pos (decide_eq_true ⟨hid, .inr hstate⟩)⟩

theorem apply_rows {kind : OperationKind} {outcome : BroadcastOutcome}
    (h : applyBroadcastOutcome operationId kind outcome outbox = .ok outbox')
    (hbroadcasted : outcome.status ≠ .broadcasted) (hexpired : outcome.status ≠ .expired) :
    outbox'.rows = outbox.rows := by
  simp only [applyBroadcastOutcome, bind_eq_ok, pure_eq_ok] at h
  obtain ⟨-, -, rfl⟩ := h
  exact if_neg (not_or.2 ⟨hbroadcasted, hexpired⟩)

theorem failure_records (operationId message : String) (outbox : Outbox) :
    Records operationId (Operation.withFailure message) outbox
      (recordBroadcastFailure operationId message outbox).1 := by
  have hpending : ∀ operation : Operation, decide (operation.operationId = operationId ∧
      operation.state = .signedPendingBroadcast) → operation.operationId = operationId :=
    fun _ hchange => (of_decide_eq_true hchange).1
  unfold recordBroadcastFailure
  dsimp only
  split_ifs
  · exact records_filter hpending fun row hrow hother => mem_releaseOperation hrow hother
  · exact records_map hpending (fun _ => rfl) fun row hrow _ => hrow

/-- After a text that does not end it, the operation is pending again, with its reservation. -/
theorem failure_stays {message : String} (hterminal : ¬ isTerminalBroadcastFailure message)
    (hmem : operation ∈ outbox.operations)
    (hstate : operation.state = .signedPendingBroadcast) :
    operation.withFailure message ∈
        (recordBroadcastFailure operation.operationId message outbox).1.operations ∧
      (recordBroadcastFailure operation.operationId message outbox).1.rows = outbox.rows := by
  unfold recordBroadcastFailure
  rw [if_neg hterminal]
  exact ⟨List.mem_map.2 ⟨operation, hmem, if_pos (decide_eq_true ⟨rfl, hstate⟩)⟩, rfl⟩

/-- An acknowledgement ends operations whose result waits for it. -/
theorem acknowledge_spec (h : acknowledge operationId outbox = .ok outbox') :
    (∀ operation ∈ outbox.operations, operation ∈ outbox'.operations ∨
      operation.operationId = operationId ∧ operation.state = .resultPendingAck) ∧
    outbox' = ⟨outbox.operations.filter fun operation =>
      !decide (operation.operationId = operationId ∧ operation.state = .resultPendingAck),
      outbox.rows⟩ := by
  simp only [acknowledge, bind_eq_ok, pure_eq_ok] at h
  obtain ⟨-, -, -, -, rfl⟩ := h
  refine ⟨fun operation hmem => ?_, rfl⟩
  by_cases hawaits : operation.operationId = operationId ∧ operation.state = .resultPendingAck
  · exact .inr hawaits
  · exact .inl (List.mem_filter.2 ⟨hmem, by rw [decide_eq_false hawaits]; rfl⟩)

/-! ## Sending -/

variable {answers : BroadcastAnswers} {rounds : List SignedRound} {totalCount index : ℕ}

/-- After the first round, an attempt goes on or stops with a plan, which is not that of an
expiry. -/
theorem step_later (hindex : 0 < index) (attempt : PcztBroadcastAttempt) :
    pcztBroadcastStep index totalCount attempt = .next ∧ index + 1 < totalCount ∨
      ∃ plan, pcztBroadcastStep index totalCount attempt = .stop plan ∧ plan.status ≠ .expired := by
  have hne : index ≠ 0 := by omega
  cases attempt with
  | accepted =>
    by_cases hmore : index + 1 < totalCount
    · exact .inl ⟨if_pos hmore, hmore⟩
    · exact .inr ⟨_, if_neg hmore, nofun⟩
  | transportUnknown error => exact .inr ⟨_, rfl, by simp [hne]⟩
  | definiteRejection error => exact .inr ⟨_, if_neg hne, nofun⟩
  | routeUnavailable error => exact .inr ⟨_, if_neg hne, nofun⟩

/-- The first round fails when the server rejects it. -/
theorem step_first (totalCount : ℕ) (answer : SendAnswer) :
    answer.rejects ∧ (∃ error, pcztBroadcastStep 0 totalCount answer.attempt = .fail error) ∨
      ¬ answer.rejects ∧ (pcztBroadcastStep 0 totalCount answer.attempt = .next ∧ 1 < totalCount ∨
        ∃ plan, pcztBroadcastStep 0 totalCount answer.attempt = .stop plan ∧
          plan.status ≠ .expired) := by
  cases answer with
  | error error => exact .inr ⟨nofun, .inr ⟨_, rfl, nofun⟩⟩
  | ok response =>
    cases hrejection : sendResponseRejectionError response with
    | some error =>
      have hattempt : SendAnswer.attempt (.ok response) = .definiteRejection error := by
        simp only [SendAnswer.attempt, hrejection]
      refine .inl ⟨?_, error, by rw [hattempt]; rfl⟩
      simp [SendAnswer.rejects, hrejection]
    | none =>
      have hattempt : SendAnswer.attempt (.ok response) = .accepted := by
        simp only [SendAnswer.attempt, hrejection]
      refine .inr ⟨by simp [SendAnswer.rejects, hrejection], ?_⟩
      rw [hattempt]
      by_cases hmore : 1 < totalCount
      · exact .inl ⟨if_pos hmore, hmore⟩
      · exact .inr ⟨_, if_neg hmore, nofun⟩

/-- The rounds after the first have a plan. -/
theorem broadcastRounds_later (hindex : 0 < index) (htotal : totalCount = index + rounds.length)
    (hrounds : rounds ≠ []) :
    ∃ sendings plan, broadcastRounds answers totalCount index rounds = (sendings, .ok plan) ∧
      plan.status ≠ .expired := by
  induction rounds generalizing index with
  | nil => exact absurd rfl hrounds
  | cons round rest ih =>
    have hne : index ≠ 0 := by omega
    unfold broadcastRounds
    rw [if_neg hne]
    cases answers.reopened index with
    | error error =>
      obtain ⟨hnext, -⟩ | ⟨plan, hstop, hplan⟩ :=
        @step_later totalCount index hindex (.routeUnavailable error)
      · simp only [pcztBroadcastStep, if_neg hne, reduceCtorEq] at hnext
      · exact ⟨[], plan, by simp only [hstop], hplan⟩
    | ok =>
      dsimp only
      obtain ⟨hnext, hmore⟩ | ⟨plan, hstop, hplan⟩ :=
        @step_later totalCount index hindex (answers.sent index).attempt
      · have hrest : rest ≠ [] := by
          rintro rfl
          simp only [List.length_cons, List.length_nil] at htotal
          omega
        obtain ⟨sendings, plan, heq, hplan⟩ := ih (Nat.succ_pos index)
          (by rw [htotal, List.length_cons]; omega) hrest
        rw [hnext, heq]
        exact ⟨_, plan, rfl, hplan⟩
      · rw [hstop]
        exact ⟨_, plan, rfl, hplan⟩

/-- How a broadcast of some rounds comes to its result. -/
inductive BroadcastCase (answers : BroadcastAnswers) (first : SignedRound)
    (rest : List SignedRound) : List Sending × Except String BroadcastOutcome → Prop
  | early {error : String} (htip : answers.chainTip = .error error) :
    BroadcastCase answers first rest ([], .error error)
  | expired {height : ℕ} {error : String} (htip : answers.chainTip = .ok height)
    (hexpired : expiryError (first :: rest) height = some error) :
    BroadcastCase answers first rest
      ([], .ok ⟨joinedTxids (first :: rest), .expired, some error⟩)
  | rejected {height : ℕ} {error : String} (htip : answers.chainTip = .ok height)
    (hlive : expiryError (first :: rest) height = none)
    (hrejects : SendAnswer.rejects (answers.sent 0)) :
    BroadcastCase answers first rest ([(first.txid, answers.sent 0)], .error error)
  | sent {height : ℕ} {later : List Sending} {outcome : BroadcastOutcome}
    (htip : answers.chainTip = .ok height) (hlive : expiryError (first :: rest) height = none)
    (haccepts : ¬ SendAnswer.rejects (answers.sent 0))
    (htxids : outcome.txids = joinedTxids (first :: rest)) (hstatus : outcome.status ≠ .expired) :
    BroadcastCase answers first rest ((first.txid, answers.sent 0) :: later, .ok outcome)

theorem storePlan_spec {plan : PcztBroadcastPlan} {stored : Except String Unit}
    (h : plan.status ≠ .expired) : (storePlan rounds plan stored).txids = joinedTxids rounds ∧
      (storePlan rounds plan stored).status ≠ .expired := by
  cases stored with
  | ok => exact ⟨rfl, h⟩
  | error error =>
    refine ⟨rfl, ?_⟩
    dsimp only [storePlan]
    split_ifs
    · exact nofun
    · exact h

theorem storeAndBroadcast_cases (answers : BroadcastAnswers) (first : SignedRound)
    (rest : List SignedRound) :
    BroadcastCase answers first rest (storeAndBroadcast answers (first :: rest)) := by
  unfold storeAndBroadcast
  cases htip : answers.chainTip with
  | error error => exact .early htip
  | ok height =>
    dsimp only
    cases hexpired : expiryError (first :: rest) height with
    | some error => exact .expired htip hexpired
    | none =>
      unfold broadcastRounds
      dsimp only
      obtain ⟨hrejects, error, hfail⟩ | ⟨haccepts, hstep⟩ :=
        step_first (first :: rest).length (answers.sent 0)
      · simp only [if_pos, hfail]
        exact .rejected htip hexpired hrejects
      · obtain ⟨hnext, hmore⟩ | ⟨plan, hstop, hplan⟩ := hstep
        · obtain ⟨later, plan, heq, hplan⟩ := @broadcastRounds_later answers rest
            (first :: rest).length 1 one_pos (Nat.add_comm _ _) (by rintro rfl; simp at hmore)
          simp only [if_pos, hnext, heq]
          exact .sent htip hexpired haccepts (storePlan_spec hplan).1 (storePlan_spec hplan).2
        · simp only [if_pos, hstop]
          exact .sent htip hexpired haccepts (storePlan_spec hplan).1 (storePlan_spec hplan).2

end VizorWallet.Ledger
