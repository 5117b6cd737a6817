import VizorWallet.Ledger.Tidy

/-!
# The outbox and transactions on the network

An operation whose first transaction may be on the network stays in the outbox until a result names
its transactions, as long as no broadcast of a transaction that may have been accepted records an
expiry or a rejection.

## Main definitions

* `LedgerWorld.MayHold` — the network may have accepted the first transaction of an operation.
* `Remembers` — what a step may do to such operations.
* `Clear` — the steps that see no late expiry, rejection or misleading text.

## Main results

* `remembered` — every clear step of every clear run remembers.
* `expired_after_crash` — a deposit that is forgotten after a crash.
-/

namespace VizorWallet.Ledger

open Send (World SendEvent SendOperation LockRow)

/-- The network may have accepted the first transaction of an operation. -/
def LedgerWorld.MayHold (world : LedgerWorld) (operation : Operation) : Prop :=
  ∃ first ∈ operation.rounds.head?, first.txid ∈ world.submitted

/-! ## What a step may do -/

/-- The result of a broadcast is recorded. -/
def BroadcastEnding.isRecorded : BroadcastEnding → Bool
  | .recorded ending => ending.commits
  | _ => false

/-- The step records a result of an operation. -/
inductive RecordsOutcome (operation : Operation) (outcome : BroadcastOutcome) : LedgerEvent → Prop
  | intro {answers : BroadcastAnswers} {ending : BroadcastEnding} (hrecorded : ending.isRecorded)
    (houtcome : (storeAndBroadcast answers operation.rounds).2 = .ok outcome)
    (htxids : outcome.txids = joinedTxids operation.rounds) :
    RecordsOutcome operation outcome (.broadcast operation.operationId answers ending)

/-- The step ends the operation through a recorded result, which names its transactions. -/
inductive Leaves (operation : Operation) : LedgerEvent → Prop
  | broadcasted {event : LedgerEvent} {outcome : BroadcastOutcome}
    (hrecords : RecordsOutcome operation outcome event) (hstatus : outcome.status = .broadcasted)
    (hkind : ¬ operation.kind.requiresAck) : Leaves operation event
  | acknowledged {status : OperationStatus} (hstate : operation.state = .resultPendingAck)
    (htxids : operation.txid = some (joinedTxids operation.rounds))
    (hstatus : operation.status = some status) :
    Leaves operation (.acknowledge operation.operationId)

/-- The operation stays in the outbox, and no expiry of it is recorded. -/
def Stays (operation : Operation) (world : LedgerWorld) : Prop :=
  ∃ new ∈ world.operations, new.operationId = operation.operationId ∧
    new.rounds = operation.rounds ∧ (new = operation ∨ new.status ≠ some .expired)

/-- The rows that reserve the inputs of an operation stay. -/
def StaysReserved (operation : Operation) (world world' : LedgerWorld) : Prop :=
  ∀ row ∈ world.wallet.rows, row.metadata.operationId = some operation.operationId →
    row.metadata.isDurable → row ∈ world'.wallet.rows

/-- The server has rejected the first transaction of an operation in this step. -/
inductive RejectsFirst (operation : Operation) : LedgerEvent → Prop
  | intro {answers : BroadcastAnswers} {ending : BroadcastEnding} {first : SignedRound}
    {answer : SendAnswer} (hfirst : operation.rounds.head? = some first)
    (hsent : (first.txid, answer) ∈ (storeAndBroadcast answers operation.rounds).1)
    (hrejects : answer.rejects) :
    RejectsFirst operation (.broadcast operation.operationId answers ending)

/-- The calls about a proposal that is not signed yet. -/
def isProposalCall : SendOperation → Bool
  | .checkpointBatch _ _ _ _ _ _ | .discard _ _ | .shutdown _ | .recoverBeforeBalance => false
  | _ => true

/-- The step is a call about a proposal. -/
def LedgerEvent.isProposalCall : LedgerEvent → Bool
  | .wallet (.complete operation) | .wallet (.crash operation _ _) =>
    Ledger.isProposalCall operation
  | _ => false

/-- What a step does to the operations of the outbox. -/
structure Remembers (world : LedgerWorld) (event : LedgerEvent) : Prop where
  stays : ∀ operation ∈ world.operations, (ledgerStep world event).MayHold operation →
    Stays operation (ledgerStep world event) ∨ Leaves operation event
  reserved : ∀ operation ∈ world.operations, (ledgerStep world event).MayHold operation →
    event.isProposalCall ∨ StaysReserved operation world (ledgerStep world event) ∨
      ∃ outcome, RecordsOutcome operation outcome event ∧ outcome.status = .broadcasted
  removed : ∀ operation ∈ world.operations, ∀ answers ending error,
    event = .broadcast operation.operationId answers ending →
    (storeAndBroadcast answers operation.rounds).2 = .error error →
    Stays operation (ledgerStep world event) ∨ RejectsFirst operation event

/-! ## Clear steps -/

/-- No text of a failure before the first transaction reads like a rejection or an expiry, and a
broadcast of a transaction that may have been accepted finds it neither expired nor rejected. -/
structure ClearBroadcast (world : LedgerWorld) (operation : Operation)
    (answers : BroadcastAnswers) : Prop where
  texts : ∀ error, answers.chainTip = .error error → ¬ isTerminalBroadcastFailure error
  live : world.MayHold operation → ∀ height, answers.chainTip = .ok height →
    expiryError operation.rounds height = none ∧ ¬ (answers.sent 0).rejects

/-- A step that is genuine, and sees no late expiry, rejection or misleading text. -/
def Clear (world : LedgerWorld) (event : LedgerEvent) : Prop :=
  event.Genuine world ∧
  match event with
  | .broadcast operationId answers ending => ending.isRecorded →
    ∀ operation, loadForBroadcast operationId world.wallet.outbox = .ok operation →
      ClearBroadcast world operation answers
  | .recoverPreviousProcess targetHeight _ => ∀ operation ∈ world.operations,
    world.MayHold operation → ∀ row ∈ world.wallet.rows,
      row.metadata.operationId = some operation.operationId → row.metadata.isDurable →
      row.metadata.isOrphan world.wallet.session →
      ∀ height ∈ targetHeight, height < row.metadata.expiryHeight
  | _ => True

/-! ## Steps -/

variable {operation other : Operation} {world : LedgerWorld} {event : LedgerEvent}

theorem Stays.self (h : operation ∈ world.operations) : Stays operation world :=
  ⟨operation, h, rfl, rfl, .inl rfl⟩

/-- A cleanup keeps the rows of signed and submitted operations. -/
theorem keepsRow {wallet wallet' : World} {row : LockRow} (h : Send.KeepsProtected wallet wallet')
    (hrow : row ∈ wallet.rows) (hdurable : row.metadata.isDurable) : row ∈ wallet'.rows :=
  (h row.owner ⟨row, hrow, rfl, .inl hdurable⟩).rows row hrow rfl

/-- What a result leaves of another operation. -/
theorem Records.keeps {update : Operation → Operation} {outbox : Outbox} {operationId : String}
    (h : Records operationId update world.wallet.outbox outbox)
    (hmem : operation ∈ world.operations) (hother : operation.operationId ≠ operationId) :
    operation ∈ outbox.operations ∧ ∀ row ∈ world.wallet.rows,
      row.metadata.operationId = some operation.operationId → row ∈ outbox.rows := by
  refine ⟨h.others operation hmem hother, fun row hrow hoperation => h.rows row hrow ?_⟩
  rw [hoperation]
  exact fun hsame => hother (Option.some.inj hsame)

/-- The network can accept the first transaction of an operation in a broadcast only when it is sent
and not rejected. -/
theorem mayHold_of_broadcast {answers : BroadcastAnswers} {ending : BroadcastEnding}
    (h : (broadcastStep world other answers ending).MayHold operation) :
    world.MayHold operation ∨
      ∃ sending ∈ (storeAndBroadcast answers other.rounds).1, ¬ sending.2.rejects := by
  obtain ⟨first, hfirst, hmem⟩ := h
  obtain hsent | hbefore := List.mem_append.1 hmem
  · obtain ⟨sending, hsending, -⟩ := List.mem_map.1 hsent
    obtain ⟨hsending, haccepted⟩ := List.mem_filter.1 hsending
    refine .inr ⟨sending, ?_, by simpa using haccepted⟩
    cases ending with
    | crash sent session => exact List.mem_of_mem_take hsending
    | _ => exact hsending
  · exact .inl ⟨first, hfirst, hbefore⟩

/-- What the recorded result of an operation does to it. -/
theorem result_keeps {answers : BroadcastAnswers} {outcome : BroadcastOutcome} {outbox : Outbox}
    {ending : BroadcastEnding} (h : world.Sound) (hmem : operation ∈ world.operations)
    (hstate : operation.state = .signedPendingBroadcast)
    (houtcome : (storeAndBroadcast answers operation.rounds).2 = .ok outcome)
    (happly : applyBroadcastOutcome operation.operationId operation.kind outcome
      world.wallet.outbox = .ok outbox)
    (hunexpired : outcome.status ≠ .expired) (hrecorded : ending.isRecorded) :
    ((∃ new ∈ outbox.operations, new.operationId = operation.operationId ∧
        new.rounds = operation.rounds ∧ (new = operation ∨ new.status ≠ some .expired)) ∨
      Leaves operation (.broadcast operation.operationId answers ending)) ∧
    (outbox.rows = world.wallet.rows ∨
      ∃ outcome,
        RecordsOutcome operation outcome (.broadcast operation.operationId answers ending) ∧
        outcome.status = .broadcasted) := by
  have hrecords : RecordsOutcome operation outcome
      (.broadcast operation.operationId answers ending) :=
    ⟨hrecorded, houtcome, txids_of_result (h.outbox.rounds operation hmem) houtcome⟩
  constructor
  · by_cases hterminal : isCleanTerminal operation.kind outcome.status
    · obtain ⟨hbroadcasted, hkind⟩ := of_decide_eq_true hterminal
      exact .inr (.broadcasted hrecords hbroadcasted hkind)
    · have hstays := apply_stays happly hterminal hmem rfl hstate
      exact .inl ⟨_, hstays, rfl, rfl, .inr fun hexpired => hunexpired (Option.some.inj hexpired)⟩
  · by_cases hbroadcasted : outcome.status = .broadcasted
    · exact .inr ⟨outcome, hrecords, hbroadcasted⟩
    · exact .inl (apply_rows happly hbroadcasted hunexpired)

/-- A failure of an operation, with a text that does not end it. -/
theorem failure_keeps {error : String} (hmem : operation ∈ world.operations)
    (hstate : operation.state = .signedPendingBroadcast)
    (hterminal : ¬ isTerminalBroadcastFailure error) :
    (∃ new ∈ (recordBroadcastFailure operation.operationId error world.wallet.outbox).1.operations,
      new.operationId = operation.operationId ∧ new.rounds = operation.rounds ∧
        (new = operation ∨ new.status ≠ some .expired)) ∧
    (recordBroadcastFailure operation.operationId error world.wallet.outbox).1.rows =
      world.wallet.rows :=
  have hstays := failure_stays hterminal hmem hstate
  ⟨⟨_, hstays.1, rfl, rfl, .inr nofun⟩, hstays.2⟩

/-- What the network can accept of an operation in its own broadcast, and why it failed. -/
theorem broadcast_result {answers : BroadcastAnswers} {ending : BroadcastEnding} (h : world.Sound)
    (hclear : ClearBroadcast world operation answers) (hmem : operation ∈ world.operations)
    (hhold : (broadcastStep world operation answers ending).MayHold operation) :
    (∀ outcome, (storeAndBroadcast answers operation.rounds).2 = .ok outcome →
      outcome.status ≠ .expired) ∧
    ∀ error, (storeAndBroadcast answers operation.rounds).2 = .error error →
      ¬ isTerminalBroadcastFailure error := by
  obtain ⟨first, rest, hsplit⟩ := List.exists_cons_of_ne_nil (h.outbox.rounds operation hmem)
  have hcase := storeAndBroadcast_cases answers first rest
  have hbefore := mayHold_of_broadcast hhold
  rw [← hsplit] at hcase
  generalize storeAndBroadcast answers operation.rounds = result at hcase hbefore ⊢
  cases hcase with
  | early htip =>
    exact ⟨nofun, fun error herror => hclear.texts error (Except.error.inj herror ▸ htip)⟩
  | expired htip hexpired =>
    obtain hbefore | ⟨_, hnone, -⟩ := hbefore
    · have hlive := (hclear.live hbefore _ htip).1
      rw [hsplit, hexpired] at hlive
      cases hlive
    · cases hnone
  | rejected htip hlive hrejects =>
    obtain hbefore | ⟨sending, hsending, haccepted⟩ := hbefore
    · exact absurd hrejects (hclear.live hbefore _ htip).2
    · rw [List.mem_singleton.1 hsending] at haccepted
      exact absurd hrejects haccepted
  | sent _ _ _ _ hstatus => exact ⟨fun outcome houtcome => Except.ok.inj houtcome ▸ hstatus, nofun⟩

/-- The disk after a broadcast: its result was recorded or not, and then reservations were cleaned
up. -/
theorem broadcast_disk {answers : BroadcastAnswers} (ending : BroadcastEnding) (h : world.Sound) :
    ∃ middle : World, (middle = world.wallet ∨ ending.isRecorded ∧
        middle ∈ recordResult operation true world.wallet
          (storeAndBroadcast answers operation.rounds).2) ∧
      (broadcastStep world operation answers ending).operations = middle.outbox.operations ∧
      ∀ row ∈ middle.rows, row.metadata.isDurable →
        row ∈ (broadcastStep world operation answers ending).wallet.rows := by
  cases ending with
  | crash sent session => exact ⟨world.wallet, .inl rfl, rfl, fun _ hrow _ => hrow⟩
  | recorded ending =>
    obtain ⟨state, hstate, houtbox⟩ := ending.apply_outbox world.wallet
      (resultStates operation true world.wallet (storeAndBroadcast answers operation.rounds).2)
    have hoperations : (broadcastStep world operation answers (.recorded ending)).operations =
        state.outbox.operations := congrArg Outbox.operations houtbox
    have hrows : (broadcastStep world operation answers (.recorded ending)).wallet.rows =
        state.rows := congrArg Outbox.rows houtbox
    rw [hoperations, hrows]
    obtain rfl | ⟨hcommits, hmem⟩ := hstate
    · exact ⟨_, .inl rfl, rfl, fun _ hrow _ => hrow⟩
    · obtain ⟨middle, hmiddle, hsame, hkeeps⟩ := broadcast_states h.wallet hmem
      exact ⟨middle, hmiddle.imp_right fun hrecord => ⟨hcommits, hrecord⟩, hsame,
        fun _ => keepsRow hkeeps⟩
  | unrecorded ending =>
    obtain ⟨state, hstate, houtbox⟩ := ending.apply_outbox world.wallet
      (resultStates operation false world.wallet (storeAndBroadcast answers operation.rounds).2)
    have hoperations : (broadcastStep world operation answers (.unrecorded ending)).operations =
        state.outbox.operations := congrArg Outbox.operations houtbox
    have hrows : (broadcastStep world operation answers (.unrecorded ending)).wallet.rows =
        state.rows := congrArg Outbox.rows houtbox
    rw [hoperations, hrows]
    obtain rfl | ⟨-, hmem⟩ := hstate
    · exact ⟨_, .inl rfl, rfl, fun _ hrow _ => hrow⟩
    · obtain ⟨middle, hmiddle, hsame, hkeeps⟩ := broadcast_states h.wallet hmem
      obtain rfl | hrecord := hmiddle
      · exact ⟨_, .inl rfl, hsame, fun _ => keepsRow hkeeps⟩
      · cases (mem_recordResult hrecord).1

theorem broadcast_keeps {answers : BroadcastAnswers} {ending : BroadcastEnding} (h : world.Sound)
    (hmem : operation ∈ world.operations) (hstate : operation.state = .signedPendingBroadcast)
    (hclear : ending.isRecorded → ClearBroadcast world operation answers)
    (hother : other ∈ world.operations)
    (hhold : (broadcastStep world operation answers ending).MayHold other) :
    (Stays other (broadcastStep world operation answers ending) ∨
      Leaves other (.broadcast operation.operationId answers ending)) ∧
    (StaysReserved other world (broadcastStep world operation answers ending) ∨
      ∃ outcome, RecordsOutcome other outcome
        (.broadcast operation.operationId answers ending) ∧ outcome.status = .broadcasted) := by
  obtain ⟨middle, hmiddle, hoperations, hrows⟩ :=
    @broadcast_disk operation world answers ending h
  unfold Stays StaysReserved
  rw [hoperations]
  obtain rfl | ⟨hrecorded, hrecord⟩ := hmiddle
  · exact ⟨.inl ⟨other, hother, rfl, rfl, .inl rfl⟩, .inl fun row hrow _ => hrows row hrow⟩
  obtain ⟨-, hrecord⟩ := mem_recordResult hrecord
  by_cases hsame : other.operationId = operation.operationId
  · obtain rfl := h.outbox.eq_of_id hother hmem hsame
    obtain ⟨hunexpired, htexts⟩ := broadcast_result h (hclear hrecorded) hmem hhold
    obtain ⟨outcome, outbox, houtcome, happly, rfl⟩ | ⟨error, herror, rfl⟩ := hrecord
    · obtain ⟨hstays, hreserved⟩ :=
        result_keeps h hmem hstate houtcome happly (hunexpired outcome houtcome) hrecorded
      refine ⟨hstays, hreserved.imp_left fun heq row hrow _ hdurable => hrows row ?_ hdurable⟩
      rw [Send.World.rows, heq]
      exact hrow
    · obtain ⟨hstays, heq⟩ := failure_keeps hmem hstate (htexts error herror)
      refine ⟨.inl hstays, .inl fun row hrow _ hdurable => hrows row ?_ hdurable⟩
      rw [Send.World.rows, heq]
      exact hrow
  · have hkept : other ∈ middle.outbox.operations ∧ ∀ row ∈ world.wallet.rows,
        row.metadata.operationId = some other.operationId → row ∈ middle.rows := by
      obtain ⟨outcome, outbox, -, happly, rfl⟩ | ⟨error, -, rfl⟩ := hrecord
      · exact (apply_records happly).keeps hother hsame
      · exact (failure_records operation.operationId error _).keeps hother hsame
    exact ⟨.inl ⟨other, hkept.1, rfl, rfl, .inl rfl⟩,
      .inl fun row hrow hown hdurable => hrows row (hkept.2 row hrow hown) hdurable⟩

/-- A broadcast that fails keeps its operation, unless the server rejects the first transaction. -/
theorem broadcast_removed {answers : BroadcastAnswers} {ending : BroadcastEnding} {error : String}
    (h : world.Sound) (hmem : operation ∈ world.operations)
    (hstate : operation.state = .signedPendingBroadcast)
    (hclear : ending.isRecorded → ClearBroadcast world operation answers)
    (herror : (storeAndBroadcast answers operation.rounds).2 = .error error) :
    Stays operation (broadcastStep world operation answers ending) ∨
      RejectsFirst operation (.broadcast operation.operationId answers ending) := by
  obtain ⟨first, rest, hsplit⟩ := List.exists_cons_of_ne_nil (h.outbox.rounds operation hmem)
  have hcase := storeAndBroadcast_cases answers first rest
  rw [← hsplit] at hcase
  obtain ⟨middle, hmiddle, hoperations, -⟩ := @broadcast_disk operation world answers ending h
  unfold Stays
  rw [hoperations]
  obtain rfl | ⟨hrecorded, hrecord⟩ := hmiddle
  · exact .inl ⟨operation, hmem, rfl, rfl, .inl rfl⟩
  obtain ⟨-, ⟨outcome, -, houtcome, -⟩ | ⟨other, hother, rfl⟩⟩ := mem_recordResult hrecord
  · cases herror.symm.trans houtcome
  generalize hresult : storeAndBroadcast answers operation.rounds = result at hcase hother
  cases hcase with
  | early htip =>
    obtain rfl := Except.error.inj hother
    exact .inl (failure_keeps hmem hstate ((hclear hrecorded).texts _ htip)).1
  | expired => cases hother
  | rejected _ _ hrejects =>
    refine .inr ⟨by rw [hsplit]; rfl, ?_, hrejects⟩
    rw [hresult]
    exact List.mem_singleton_self _
  | sent => cases hother

/-! ## Other steps -/

/-- A checkpoint takes reservations that are not signed. -/
theorem checkpoint_rows {session : Send.SessionId} {shuttingDown : Bool}
    {validate : Except String Unit} {operationId accountUuid : String} {kind : OperationKind}
    {externalRef : Option String} {rounds : List SignedRound} {outbox outbox' : Outbox}
    (h : checkpointBatch session shuttingDown validate operationId accountUuid kind externalRef
      rounds outbox = .ok outbox') {row : LockRow} (hrow : row ∈ outbox.rows)
    (hdurable : row.metadata.isDurable) : row ∈ outbox'.rows := by
  simp only [checkpointBatch, bind_eq_ok] at h
  obtain ⟨-, -, -, -, -, -, expiryHeight, -, -, -, -, -, h⟩ := h
  split at h
  · simp only [bind_eq_ok, pure_eq_ok] at h
    obtain ⟨-, -, rfl⟩ := h
    exact hrow
  · simp only [bind_eq_ok, pure_eq_ok] at h
    obtain ⟨rows, hrows, rfl⟩ := h
    refine @foldlM_invariant _ _ _ (Send.checkpointOwner session operationId) (row ∈ ·) _ _ _
      (fun rows owner rows' _ hmem hstep => ?_) hrow hrows
    simp only [Send.checkpointOwner, bind_eq_ok, pure_eq_ok] at hstep
    obtain ⟨-, -, rfl⟩ := hstep
    refine Send.mem_updateRows.2 ⟨row, hmem, ?_⟩
    rw [if_neg]
    intro hcondition
    obtain ⟨-, -, hphase⟩ := of_decide_eq_true hcondition
    simp [Send.LockMetadata.isDurable, hphase] at hdurable

/-- A call that is not about a proposal keeps the rows of signed and submitted operations. -/
theorem wallet_rows {wallet : World} {operation : SendOperation} (h : wallet.Sound)
    (hcall : ¬ isProposalCall operation) {row : LockRow} (hrow : row ∈ wallet.rows)
    (hdurable : row.metadata.isDurable) :
    ∀ state ∈ operation.states wallet, row ∈ state.rows := by
  intro state hstate
  cases operation with
  | checkpointBatch =>
    obtain ⟨outbox, hcheckpoint, rfl⟩ := mem_commit.1 hstate
    exact checkpoint_rows hcheckpoint hrow hdurable
  | discard => exact keepsRow (Send.discard_keeps h hstate) hrow hdurable
  | shutdown => exact keepsRow (Send.shutdown_keeps h hstate) hrow hdurable
  | recoverBeforeBalance => exact keepsRow (Send.recover_keeps h hstate) hrow hdurable
  | _ => exact absurd rfl hcall

theorem walletEvent_rows {wallet : World} {event : SendEvent} (h : wallet.Sound)
    (hcall : ¬ (LedgerEvent.wallet event).isProposalCall) {row : LockRow} (hrow : row ∈ wallet.rows)
    (hdurable : row.metadata.isDurable) : row ∈ (Send.sendStep wallet event).rows := by
  cases event with
  | complete operation =>
    have hstates := wallet_rows h hcall hrow hdurable
    obtain hsame | hmem := @Send.last_eq_or_mem wallet (operation.states wallet)
    · rw [Send.sendStep, hsame]
      exact hrow
    · exact hstates _ hmem
  | crash operation commits session =>
    have hstates := wallet_rows h hcall hrow hdurable
    obtain hsame | hmem := @Send.last_eq_or_mem wallet ((operation.states wallet).take commits)
    · rw [Send.sendStep, hsame]
      exact hrow
    · have hmem' := hstates _ (List.mem_of_mem_take hmem)
      exact hmem'
  | others outputLocks => exact hrow

/-- A recovery keeps a row whose reservation it does not release. -/
theorem recoverPrevious_row {wallet state : World} {targetHeight : Option ℕ} {row : LockRow}
    (h : wallet.Sound) (hrow : row ∈ wallet.rows)
    (hheld : row.metadata.isOrphan wallet.session → ¬ Send.shouldReleaseAfterRestart
      row.metadata.retainUntilExpiry targetHeight row.metadata.expiryHeight)
    (hstate : state ∈ Send.recoverPreviousProcess targetHeight wallet) : row ∈ state.rows := by
  unfold Send.recoverPreviousProcess at hstate
  cases hread : Send.readPreviousSessionLocks wallet.session wallet.rows with
  | error =>
    rw [hread] at hstate
    cases hstate
  | ok locks =>
    rw [hread] at hstate
    obtain hunlocking | hremoving := List.mem_append.1 hstate
    · obtain ⟨outputLocks, -, rfl⟩ := List.mem_map.1 hunlocking
      exact hrow
    · rw [List.mem_singleton.1 hremoving]
      refine List.mem_filter.2 ⟨hrow, decide_eq_true fun hreleased => ?_⟩
      obtain ⟨horphan, hreleases, -⟩ :=
        Send.rows_of_released h.disk.agree hread hreleased row hrow rfl
      exact hheld horphan hreleases

/-! ## Clear runs -/

/-- A step that keeps every operation and every row. -/
theorem remembers_of_keeps
    (hoperations : ∀ operation ∈ world.operations,
      operation ∈ (ledgerStep world event).operations)
    (hrows : ∀ row ∈ world.wallet.rows, row ∈ (ledgerStep world event).wallet.rows) :
    Remembers world event where
  stays operation hmem _ := .inl (.self (hoperations operation hmem))
  reserved _ _ _ := .inr (.inl fun row hrow _ _ => hrows row hrow)
  removed operation hmem _ _ _ _ _ := .inl (.self (hoperations operation hmem))

theorem acknowledge_remembers {operationId : String} (h : world.Sound) :
    Remembers world (.acknowledge operationId) := by
  cases hresult : acknowledge operationId world.wallet.outbox with
  | error error =>
    have houtbox : (ledgerStep world (.acknowledge operationId)).wallet.outbox =
        world.wallet.outbox := by
      rw [ledgerStep, hresult]
      rfl
    refine remembers_of_keeps (fun operation hmem => ?_) fun row hrow => ?_
    · rw [LedgerWorld.operations, houtbox]
      exact hmem
    · rw [Send.World.rows, houtbox]
      exact hrow
  | ok outbox =>
    have houtbox : (ledgerStep world (.acknowledge operationId)).wallet.outbox = outbox := by
      rw [ledgerStep, hresult]
      rfl
    obtain ⟨hkept, hfiltered⟩ := acknowledge_spec hresult
    refine ⟨fun operation hmem _ => ?_, fun operation _ _ => .inr (.inl fun row hrow _ _ => ?_),
      fun _ _ _ _ _ hevent => by cases hevent⟩
    · obtain hstays | ⟨rfl, hstate⟩ := hkept operation hmem
      · refine .inl (.self ?_)
        rw [LedgerWorld.operations, houtbox]
        exact hstays
      · obtain ⟨htxids, hstatus⟩ := h.outbox.results operation hmem hstate
        obtain ⟨status, hstatus⟩ := Option.isSome_iff_exists.1 hstatus
        exact .inr (.acknowledged hstate htxids hstatus)
    · rw [Send.World.rows, houtbox, hfiltered]
      exact hrow

theorem remembers_of_clear (h : world.Sound) (hclear : Clear world event) :
    Remembers world event := by
  cases event with
  | wallet event =>
    have hkept : ∀ operation ∈ world.operations,
        operation ∈ (ledgerStep world (.wallet event)).operations := by
      intro operation hmem
      change operation ∈ (Send.sendStep world.wallet event).outbox.operations
      obtain hsame | ⟨new, hnew, -⟩ := @wallet_operations world.wallet event hclear.1.2
      · exact hsame ▸ hmem
      · exact hnew ▸ List.mem_append_left _ hmem
    refine ⟨fun operation hmem _ => .inl (.self (hkept operation hmem)), fun operation hmem _ => ?_,
      fun operation hmem _ _ _ _ _ => .inl (.self (hkept operation hmem))⟩
    by_cases hcall : (LedgerEvent.wallet event).isProposalCall
    · exact .inl hcall
    · exact .inr (.inl fun row hrow _ hdurable => walletEvent_rows h.wallet hcall hrow hdurable)
  | broadcast operationId answers ending =>
    cases hload : loadForBroadcast operationId world.wallet.outbox with
    | error =>
      have hsame : ledgerStep world (.broadcast operationId answers ending) = world := by
        simp only [ledgerStep, hload]
      refine remembers_of_keeps (fun operation hmem => ?_) fun row hrow => ?_
      · rw [hsame]
        exact hmem
      · rw [hsame]
        exact hrow
    | ok operation =>
      have hstep : ledgerStep world (.broadcast operationId answers ending) =
          broadcastStep world operation answers ending := by
        simp only [ledgerStep, hload]
      obtain ⟨hmem, rfl, hstate⟩ := mem_of_load hload
      have hclear' := fun hrecorded => hclear.2 hrecorded operation hload
      refine ⟨fun other hother hhold => ?_, fun other hother hhold => .inr ?_,
        fun other hother answers' ending' error hevent herror => ?_⟩
      · rw [hstep] at hhold ⊢
        exact (broadcast_keeps h hmem hstate hclear' hother hhold).1
      · rw [hstep] at hhold ⊢
        exact (broadcast_keeps h hmem hstate hclear' hother hhold).2
      · obtain ⟨hid, rfl, rfl⟩ := LedgerEvent.broadcast.inj hevent
        obtain rfl := h.outbox.eq_of_id hmem hother hid
        rw [hstep]
        exact broadcast_removed h hmem hstate hclear' herror
  | acknowledge => exact acknowledge_remembers h
  | recoverPreviousProcess targetHeight ending =>
    obtain ⟨state, hstate, houtbox⟩ := ending.apply_outbox world.wallet
      (Send.recoverPreviousProcess targetHeight world.wallet)
    have hstep : (ledgerStep world (.recoverPreviousProcess targetHeight ending)).wallet.outbox =
        state.outbox := houtbox
    have hkept : ∀ operation ∈ world.operations,
        Stays operation (ledgerStep world (.recoverPreviousProcess targetHeight ending)) := by
      intro operation hmem
      refine .self ?_
      rw [LedgerWorld.operations, hstep]
      obtain rfl | ⟨-, hstate⟩ := hstate
      · exact hmem
      · exact recoverPrevious_leaves state hstate ▸ hmem
    refine ⟨fun operation hmem _ => .inl (hkept operation hmem), fun operation hmem hhold =>
      .inr (.inl fun row hrow hown hdurable => ?_), fun _ _ _ _ _ hevent => by cases hevent⟩
    rw [Send.World.rows, hstep]
    obtain rfl | ⟨-, hstate⟩ := hstate
    · exact hrow
    · refine recoverPrevious_row h.wallet hrow (fun horphan hreleases => ?_) hstate
      have hretain := (h.wallet.disk.coherent row hrow).retained hdurable
      have hlive := hclear.2 operation hmem hhold row hrow hown hdurable horphan
      cases targetHeight with
      | none => simp [Send.shouldReleaseAfterRestart, hretain] at hreleases
      | some height =>
        have hlt := hlive height rfl
        simp [Send.shouldReleaseAfterRestart, hretain] at hreleases
        omega

theorem sound_of_clear {initial : World} (hinitial : initial.Upgraded)
    (hempty : initial.outbox.operations = []) (h : (ledger initial).Reaches Clear world) :
    world.Sound := by
  refine h.invariant ⟨hinitial.sound, ?_⟩ fun world event world' hworld hclear hstep =>
    Option.some.inj hstep ▸ hworld.step hclear.1
  change Tidy initial.outbox.operations
  rw [hempty]
  exact ⟨List.nodup_nil, fun _ hmem => absurd hmem List.not_mem_nil,
    fun _ hmem => absurd hmem List.not_mem_nil⟩

/-- In every run of clear steps from a wallet without operations, every clear step keeps each
operation whose first transaction may be on the network, with its reservation and without an expiry,
until a result is recorded that names its transactions; and a failed broadcast ends an operation
only when the server has rejected its first transaction. -/
theorem remembered {initial : World} (hinitial : initial.Upgraded)
    (hempty : initial.outbox.operations = []) (h : (ledger initial).Reaches Clear world)
    (hclear : Clear world event) : Remembers world event :=
  remembers_of_clear (sound_of_clear hinitial hempty h) hclear

def sampleRound : SignedRound := ⟨[1], [2], some (Send.sampleOwner 1), "bb", 160⟩

/-- A server at a height that gives an answer. -/
def sampleAnswers (height : ℕ) (response : SendResponse) : BroadcastAnswers where
  prepared := .ok ()
  route := .ok ()
  latest := .ok height
  reopened _ := .ok ()
  sent _ := .ok response
  stored := .ok ()

/-- A deposit is proposed, made into a PCZT and signed. -/
def samplePropose : LedgerEvent :=
  .wallet (.complete (.proposeSend "flow" (Send.sampleOwner 1) [Send.sampleOutput 1] 140 false))

def sampleBegin : LedgerEvent := .wallet (.complete (.beginPczt 1 "flow" true))

def sampleFinish : LedgerEvent := .wallet (.complete (.finishPczt 1 160 false true))

def sampleCheckpoint : LedgerEvent := .wallet (.complete
  (.checkpointBatch (.ok ()) "deposit" "account" .swapDeposit (some "swap") [sampleRound]))

/-- It is sent, and the process ends. -/
def sampleCrash : LedgerEvent :=
  .broadcast "deposit" (sampleAnswers 150 ⟨0, "bb"⟩) (.crash 1 (Send.sampleSession 2))

/-- The server has accepted a deposit, and the process ends before that is recorded. -/
def sampleSubmitted : LedgerWorld :=
  [samplePropose, sampleBegin, sampleFinish, sampleCheckpoint, sampleCrash].foldl ledgerStep
    ⟨Send.sampleWorld, []⟩

def sampleDeposit : Operation :=
  ⟨"deposit", "account", .swapDeposit, some "swap", [sampleRound], some 160,
    .signedPendingBroadcast, none, none, none⟩

theorem sampleSubmitted_operations : sampleSubmitted.operations = [sampleDeposit] := by
  decide +kernel

theorem sampleSubmitted_reaches : (ledger Send.sampleWorld).Reaches Clear sampleSubmitted := by
  have hfree (output : Send.OutputRef) :
      Send.sampleWorld.outputLocks output ≠ some (Send.sampleOwner 1) :=
    fun hheld => absurd (Send.sampleWorld_held hheld).2 (by decide)
  have hbound : ∀ owner ∈ boundOwners [sampleRound], owner ∈ Send.sampleProposed.bound := by
    decide +kernel
  have hproposed : (ledger Send.sampleWorld).Reaches Clear _ :=
    Transition.Reaches.init.step (e := samplePropose) ⟨⟨⟨by decide, hfree⟩, by decide⟩, trivial⟩ rfl
  have hmade : (ledger Send.sampleWorld).Reaches Clear _ :=
    (hproposed.step (e := sampleBegin) ⟨⟨trivial, by decide⟩, trivial⟩ rfl).step
      (e := sampleFinish) ⟨⟨trivial, by decide⟩, trivial⟩ rfl
  have hsigned : (ledger Send.sampleWorld).Reaches Clear _ :=
    hmade.step (e := sampleCheckpoint) ⟨⟨hbound, by decide⟩, trivial⟩ rfl
  exact hsigned.step (e := sampleCrash)
    ⟨trivial, fun hrecorded => absurd hrecorded (by decide)⟩ rfl

/-- A retry that the server answers as a duplicate. -/
def sampleRetry : LedgerEvent :=
  .broadcast "deposit" (sampleAnswers 155 ⟨-25, "Transaction already in mempool"⟩)
    (.recorded .returns)

theorem sampleRetry_clear : Clear sampleSubmitted sampleRetry := by
  refine ⟨trivial, fun _ operation hload => ?_⟩
  have hdeposit : loadForBroadcast "deposit" sampleSubmitted.wallet.outbox = .ok sampleDeposit := by
    decide +kernel
  obtain rfl := Except.ok.inj (hdeposit.symm.trans hload)
  refine ⟨nofun, fun _ height htip => ?_⟩
  obtain rfl : 155 = height := Except.ok.inj htip
  exact ⟨by decide +kernel, by decide +kernel⟩

/-- After the crash, the retry keeps the deposit until its result is acknowledged. -/
theorem remembered_sample : Remembers sampleSubmitted sampleRetry ∧
    (ledgerStep sampleSubmitted sampleRetry).operations.map Operation.status =
      [some .broadcasted] :=
  ⟨remembered Send.sampleWorld_upgraded rfl sampleSubmitted_reaches sampleRetry_clear,
    by decide +kernel⟩

/-- A retry after the expiry height. -/
def sampleLate : LedgerEvent :=
  .broadcast "deposit" (sampleAnswers 170 ⟨0, "bb"⟩) (.recorded .returns)

/-- The deposit may have been mined, and the retry records it as expired and releases its input. -/
theorem expired_after_crash : ¬ ∀ initial : World, initial.Upgraded →
    initial.outbox.operations = [] → ∀ world,
    (ledger initial).Reaches (fun world event => event.Genuine world) world →
    ∀ event : LedgerEvent, event.Genuine world → Remembers world event := by
  intro hall
  have hreaches : (ledger Send.sampleWorld).Reaches (fun world event => event.Genuine world)
      sampleSubmitted := sampleSubmitted_reaches.mono fun _ _ hclear => hclear.1
  have hremembers :=
    hall Send.sampleWorld Send.sampleWorld_upgraded rfl _ hreaches sampleLate trivial
  have hmem : sampleDeposit ∈ sampleSubmitted.operations := by
    rw [sampleSubmitted_operations]
    exact List.mem_singleton_self _
  have hhold : (ledgerStep sampleSubmitted sampleLate).MayHold sampleDeposit :=
    ⟨sampleRound, rfl, by decide +kernel⟩
  obtain ⟨new, hnew, -, -, hkept⟩ | hleaves := hremembers.stays _ hmem hhold
  · have hexpired : ∀ new ∈ (ledgerStep sampleSubmitted sampleLate).operations,
        new ≠ sampleDeposit ∧ new.status = some .expired := by decide +kernel
    obtain ⟨hne, hstatus⟩ := hexpired new hnew
    obtain hsame | hunexpired := hkept
    · exact hne hsame
    · exact hunexpired hstatus
  · cases hleaves with
    | broadcasted hrecords hstatus hkind => exact hkind rfl

end VizorWallet.Ledger
