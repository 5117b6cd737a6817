import VizorWallet.Ledger.Moves

/-!
# The operations of the outbox

In every run the operations of the outbox have different names, and a result that waits for its
acknowledgement names the transactions of its operation.

## Main definitions

* `Tidy` — the invariant of the operations.

## Main results

* `LedgerWorld.Sound.step` — every genuine step keeps the wallet and the outbox sound.
-/

namespace VizorWallet.Ledger

open Send (World SendEvent SendOperation)

/-- Operations with different names and some rounds, whose results name their transactions. -/
structure Tidy (operations : List Operation) : Prop where
  ids : (operations.map Operation.operationId).Nodup
  rounds : ∀ operation ∈ operations, operation.rounds ≠ []
  results : ∀ operation ∈ operations, operation.state = .resultPendingAck →
    operation.txid = some (joinedTxids operation.rounds) ∧ operation.status.isSome

structure LedgerWorld.Sound (world : LedgerWorld) : Prop where
  wallet : world.wallet.Sound
  outbox : Tidy world.operations

variable {operations : List Operation} {outbox outbox' : Outbox} {operationId : String}
  {operation other : Operation} {world : LedgerWorld} {event : LedgerEvent}

theorem Tidy.eq_of_id (h : Tidy operations) (hmem : operation ∈ operations)
    (hother : other ∈ operations) (hid : operation.operationId = other.operationId) :
    operation = other :=
  List.inj_on_of_nodup_map h.ids hmem hother hid

/-- A row of the outbox that is new is pending. -/
theorem Tidy.append (h : Tidy operations) {new : Operation}
    (hfresh : ∀ operation ∈ operations, operation.operationId ≠ new.operationId)
    (hrounds : new.rounds ≠ []) (hstate : new.state = .signedPendingBroadcast) :
    Tidy (operations ++ [new]) where
  ids := by
    rw [List.map_append, List.nodup_append]
    refine ⟨h.ids, List.nodup_singleton _, ?_⟩
    rintro _ hold _ hnew rfl
    obtain ⟨operation, hoperation, hid⟩ := List.mem_map.1 hold
    obtain ⟨_, hsingle, rfl⟩ := List.mem_map.1 hnew
    rw [List.mem_singleton.1 hsingle] at hid
    exact hfresh operation hoperation hid
  rounds operation hmem := by
    obtain hold | hnew := List.mem_append.1 hmem
    · exact h.rounds operation hold
    · exact List.mem_singleton.1 hnew ▸ hrounds
  results operation hmem hresult := by
    obtain hold | hnew := List.mem_append.1 hmem
    · exact h.results operation hold hresult
    · rw [List.mem_singleton.1 hnew, hstate] at hresult
      cases hresult

theorem Tidy.filter (h : Tidy operations) (keeps : Operation → Bool) :
    Tidy (operations.filter keeps) where
  ids := h.ids.sublist (List.filter_sublist.map _)
  rounds operation hmem := h.rounds operation (List.mem_of_mem_filter hmem)
  results operation hmem := h.results operation (List.mem_of_mem_filter hmem)

theorem Tidy.records {update : Operation → Operation} (h : Tidy outbox.operations)
    (hrecords : Records operationId update outbox outbox')
    (hupdate : ∀ operation ∈ outbox.operations, operation.operationId = operationId →
      (update operation).rounds = operation.rounds ∧
      ((update operation).state = .resultPendingAck →
        (update operation).txid = some (joinedTxids operation.rounds) ∧
          (update operation).status.isSome)) : Tidy outbox'.operations where
  ids := h.ids.sublist hrecords.ids
  rounds operation hmem := by
    obtain hold | ⟨source, hsource, hid, rfl⟩ := hrecords.origin operation hmem
    · exact h.rounds operation hold
    · rw [(hupdate source hsource hid).1]
      exact h.rounds source hsource
  results operation hmem hresult := by
    obtain hold | ⟨source, hsource, hid, rfl⟩ := hrecords.origin operation hmem
    · exact h.results operation hold hresult
    · obtain ⟨hrounds, hresults⟩ := hupdate source hsource hid
      rw [hrounds]
      exact hresults hresult

theorem Tidy.failure (h : Tidy outbox.operations) (operationId message : String) :
    Tidy (recordBroadcastFailure operationId message outbox).1.operations :=
  h.records (failure_records operationId message outbox) fun operation hmem _ =>
    ⟨rfl, fun hresult => ⟨(h.results operation hmem hresult).1, rfl⟩⟩

theorem Tidy.result (h : Tidy outbox.operations) (hmem : operation ∈ outbox.operations)
    {kind : OperationKind} {outcome : BroadcastOutcome}
    (htxids : outcome.txids = joinedTxids operation.rounds)
    (happly : applyBroadcastOutcome operation.operationId kind outcome outbox = .ok outbox') :
    Tidy outbox'.operations := by
  refine h.records (apply_records happly) fun other hother hid => ⟨rfl, fun _ => ⟨?_, rfl⟩⟩
  obtain rfl := h.eq_of_id hother hmem hid
  exact congrArg some htxids

/-! ## Steps of the wallet -/

theorem mem_commit {world state : World} {result : Except String Outbox} :
    state ∈ world.commit result ↔ ∃ outbox, result = .ok outbox ∧
      state = { world with outbox := outbox } := by
  cases result with
  | error => exact ⟨nofun, nofun⟩
  | ok outbox => simp [World.commit]

/-- A step of the wallet adds at most one operation, which is pending. -/
theorem wallet_operations {world : World} {event : SendEvent}
    (hresult : match event with
      | .complete operation | .crash operation _ _ => ¬ isResult operation
      | .others _ => True) :
    (Send.sendStep world event).outbox.operations = world.outbox.operations ∨
      ∃ new : Operation, (Send.sendStep world event).outbox.operations =
          world.outbox.operations ++ [new] ∧ world.outbox.find new.operationId = none ∧
        new.rounds ≠ [] ∧ new.state = .signedPendingBroadcast := by
  have hstates {operation : SendOperation} (hoperation : ¬ isResult operation) :
      ∀ state ∈ operation.states world, state.outbox.operations = world.outbox.operations ∨
        ∃ new : Operation, state.outbox.operations = world.outbox.operations ++ [new] ∧
          world.outbox.find new.operationId = none ∧ new.rounds ≠ [] ∧
          new.state = .signedPendingBroadcast := by
    intro state hstate
    by_cases hwrites : writesOutbox operation
    · cases operation with
      | checkpointBatch =>
        obtain ⟨outbox, hcheckpoint, rfl⟩ := mem_commit.1 hstate
        obtain rfl | hnew := checkpoint_spec hcheckpoint
        · exact .inl rfl
        · exact .inr hnew
      | applyBroadcastOutcome => exact absurd rfl hoperation
      | recordBroadcastFailure => exact absurd rfl hoperation
      | _ => cases hwrites
    · exact .inl (leavesOutbox hwrites state hstate)
  cases event with
  | complete operation =>
    obtain hsame | hmem := @Send.last_eq_or_mem world (operation.states world)
    · exact .inl (congrArg (·.outbox.operations) hsame)
    · exact hstates hresult _ hmem
  | crash operation commits session =>
    obtain hsame | hmem := @Send.last_eq_or_mem world ((operation.states world).take commits)
    · exact .inl (congrArg (·.outbox.operations) hsame)
    · have hstate := hstates hresult _ (List.mem_of_mem_take hmem)
      exact hstate
  | others outputLocks => exact .inl rfl

/-! ## Broadcasts -/

theorem mem_of_load (h : loadForBroadcast operationId outbox = .ok operation) :
    operation ∈ outbox.operations ∧ operation.operationId = operationId ∧
      operation.state = .signedPendingBroadcast := by
  unfold loadForBroadcast at h
  rw [orError_eq_ok] at h
  have hpending := List.find?_some h
  exact ⟨List.mem_of_find?_eq_some h, of_decide_eq_true hpending⟩

/-- The commit of a result, if there is one. -/
theorem mem_recordResult {world state : World} {recorded : Bool}
    {result : Except String BroadcastOutcome}
    (h : state ∈ recordResult operation recorded world result) : recorded ∧
      ((∃ outcome outbox, result = .ok outcome ∧ applyBroadcastOutcome operation.operationId
          operation.kind outcome world.outbox = .ok outbox ∧
          state = { world with outbox := outbox }) ∨
        ∃ error, result = .error error ∧ state = { world with
          outbox := (recordBroadcastFailure operation.operationId error world.outbox).1 }) := by
  cases result with
  | ok outcome =>
    dsimp only [recordResult] at h
    split_ifs at h with hrecorded
    · obtain ⟨outbox, happly, rfl⟩ := mem_commit.1 h
      exact ⟨hrecorded, .inl ⟨outcome, outbox, rfl, happly, rfl⟩⟩
    · cases h
  | error error =>
    dsimp only [recordResult] at h
    split_ifs at h with hrecorded
    · obtain ⟨outbox, hok, rfl⟩ := mem_commit.1 h
      obtain rfl := Except.ok.inj hok
      exact ⟨hrecorded, .inr ⟨error, rfl, rfl⟩⟩
    · cases h

theorem recordResult_safe {world : World} {recorded : Bool}
    {result : Except String BroadcastOutcome} (h : world.Sound) :
    Send.Safe world (recordResult operation recorded world result) := by
  cases result with
  | ok outcome =>
    dsimp only [recordResult]
    split_ifs
    · exact Send.applyOutcome_safe h
    · exact .nil h
  | error error =>
    dsimp only [recordResult]
    split_ifs
    · exact Send.recordFailure_safe h
    · exact .nil h

theorem resultStates_safe {world : World} {recorded : Bool}
    {result : Except String BroadcastOutcome} (h : world.Sound) :
    Send.Safe world (resultStates operation recorded world result) :=
  have hrecord := recordResult_safe h
  .append hrecord.disk (Send.recover_safe hrecord.last)

/-- The state in which a call ends. -/
theorem Ending.apply_outbox (ending : Ending) (world : World) (states : List World) :
    ∃ state, (state = world ∨ ending.commits ∧ state ∈ states) ∧
      (ending.apply world states).outbox = state.outbox := by
  cases ending with
  | returns =>
    refine ⟨world.last states, ?_, rfl⟩
    exact (Send.last_eq_or_mem states).imp_right fun hmem => ⟨rfl, hmem⟩
  | crash commits session =>
    refine ⟨world.last (states.take commits), ?_, rfl⟩
    obtain hsame | hmem := @Send.last_eq_or_mem world (states.take commits)
    · exact .inl hsame
    · refine .inr ⟨decide_eq_true ?_, List.mem_of_mem_take hmem⟩
      rintro rfl
      exact absurd hmem List.not_mem_nil

theorem Ending.sound {world : World} {states : List World} (h : world.Sound)
    (hsafe : Send.Safe world states) (ending : Ending) : (ending.apply world states).Sound := by
  cases ending with
  | returns => exact hsafe.last
  | crash commits session =>
    refine Send.DiskSound.restart ?_ session
    obtain hsame | hmem := @Send.last_eq_or_mem world (states.take commits)
    · rw [hsame]
      exact h.disk
    · exact hsafe.disk _ (List.mem_of_mem_take hmem)

/-- What is on disk after a broadcast: nothing changed, or its result was recorded, and then
reservations were cleaned up. -/
theorem broadcast_states {world state : World} {recorded : Bool}
    {result : Except String BroadcastOutcome} (h : world.Sound)
    (hstate : state ∈ resultStates operation recorded world result) :
    ∃ middle : World, (middle = world ∨ middle ∈ recordResult operation recorded world result) ∧
      state.outbox.operations = middle.outbox.operations ∧ Send.KeepsProtected middle state := by
  obtain hrecord | hrecover := List.mem_append.1 hstate
  · exact ⟨state, .inr hrecord, rfl, .refl state⟩
  · refine ⟨_, Send.last_eq_or_mem _, @recoverPrevious_leaves _ none state hrecover, ?_⟩
    exact Send.recover_keeps (recordResult_safe h).last hrecover

/-! ## The invariant over runs -/

/-- The result of a broadcast of an operation names its transactions. -/
theorem txids_of_result {answers : BroadcastAnswers} {outcome : BroadcastOutcome}
    (hrounds : operation.rounds ≠ [])
    (h : (storeAndBroadcast answers operation.rounds).2 = .ok outcome) :
    outcome.txids = joinedTxids operation.rounds := by
  obtain ⟨first, rest, hsplit⟩ := List.exists_cons_of_ne_nil hrounds
  have hcase := storeAndBroadcast_cases answers first rest
  rw [hsplit] at h ⊢
  generalize storeAndBroadcast answers (first :: rest) = result at h hcase
  cases hcase with
  | early => cases h
  | expired => exact (Except.ok.inj h) ▸ rfl
  | rejected => cases h
  | sent _ _ _ htxids => exact (Except.ok.inj h) ▸ htxids

theorem tidy_of_recordResult {state wallet : World} {answers : BroadcastAnswers} {recorded : Bool}
    (h : Tidy wallet.outbox.operations) (hmem : operation ∈ wallet.outbox.operations)
    (hstate : state ∈ recordResult operation recorded wallet
      (storeAndBroadcast answers operation.rounds).2) : Tidy state.outbox.operations := by
  obtain ⟨-, ⟨outcome, outbox, houtcome, happly, rfl⟩ | ⟨error, -, rfl⟩⟩ := mem_recordResult hstate
  · exact h.result hmem (txids_of_result (h.rounds operation hmem) houtcome) happly
  · exact h.failure operation.operationId error

theorem tidy_of_resultStates {state wallet : World} {answers : BroadcastAnswers} {recorded : Bool}
    (hsound : wallet.Sound) (h : Tidy wallet.outbox.operations)
    (hmem : operation ∈ wallet.outbox.operations)
    (hstate : state ∈ resultStates operation recorded wallet
      (storeAndBroadcast answers operation.rounds).2) : Tidy state.outbox.operations := by
  obtain ⟨middle, hmiddle, hsame, -⟩ := broadcast_states hsound hstate
  rw [hsame]
  obtain rfl | hrecord := hmiddle
  · exact h
  · exact tidy_of_recordResult h hmem hrecord

/-- An ending keeps the invariant when each commit does. -/
theorem LedgerWorld.Sound.ending {wallet : World} {states : List World} {submitted : List String}
    (hwallet : wallet.Sound) (htidy : Tidy wallet.outbox.operations)
    (hsafe : Send.Safe wallet states) (hstates : ∀ state ∈ states, Tidy state.outbox.operations)
    (ending : Ending) : LedgerWorld.Sound ⟨ending.apply wallet states, submitted⟩ where
  wallet := ending.sound hwallet hsafe
  outbox := by
    obtain ⟨state, hstate, houtbox⟩ := ending.apply_outbox wallet states
    rw [LedgerWorld.operations, houtbox]
    obtain rfl | ⟨-, hmem⟩ := hstate
    · exact htidy
    · exact hstates state hmem

theorem LedgerWorld.Sound.step (h : world.Sound) (hgenuine : event.Genuine world) :
    (ledgerStep world event).Sound := by
  cases event with
  | wallet event =>
    refine ⟨h.wallet.step hgenuine.1, ?_⟩
    change Tidy (Send.sendStep world.wallet event).outbox.operations
    obtain hsame | ⟨new, hnew, hfresh, hrounds, hstate⟩ :=
      @wallet_operations world.wallet event hgenuine.2
    · exact hsame ▸ h.outbox
    · have hother : ∀ operation ∈ world.operations, operation.operationId ≠ new.operationId := by
        intro operation hmem
        simpa using List.find?_eq_none.1 hfresh operation hmem
      rw [hnew]
      exact h.outbox.append hother hrounds hstate
  | broadcast operationId answers ending =>
    dsimp only [ledgerStep]
    split
    · exact h
    · rename_i operation hload
      have hmem := (mem_of_load hload).1
      have hstates (recorded : Bool) := fun state =>
        @tidy_of_resultStates operation state world.wallet answers recorded h.wallet h.outbox hmem
      cases ending with
      | recorded ending =>
        exact .ending h.wallet h.outbox (resultStates_safe h.wallet) (hstates true) ending
      | unrecorded ending =>
        exact .ending h.wallet h.outbox (resultStates_safe h.wallet) (hstates false) ending
      | crash sent session => exact ⟨h.wallet.disk.restart session, h.outbox⟩
  | acknowledge operationId =>
    dsimp only [ledgerStep]
    cases hresult : acknowledge operationId world.wallet.outbox with
    | error => exact h
    | ok outbox =>
      obtain rfl := (acknowledge_spec hresult).2
      exact ⟨⟨h.wallet.disk, h.wallet.memory⟩, h.outbox.filter _⟩
  | recoverPreviousProcess targetHeight ending =>
    have hsafe := @Send.recoverPrevious_safe world.wallet targetHeight h.wallet
    refine .ending h.wallet h.outbox hsafe (fun state hstate => ?_) ending
    rw [recoverPrevious_leaves state hstate]
    exact h.outbox

end VizorWallet.Ledger
