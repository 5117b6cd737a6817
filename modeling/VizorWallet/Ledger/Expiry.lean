import VizorWallet.Ledger.Remembered
import VizorWallet.Send.Expiries

/-!
# Expiry of signed Ledger operations

The expiry of a signed operation is kept in the reservation of its inputs, in its row of the outbox
and in its transactions. A recovery compares the target height with the first, a broadcast compares
the chain tip with the last.

## Main definitions

* `pinned` — the runs, with the expiry that the PCZT of each owner was made with.
* `PinnedWorld.Sound` — the rows of an owner have the expiry of its PCZT, and the owners of pending
  operations are signed.
* `Releases` — a recovery releases an input of an owner.

## Main results

* `PinnedWorld.Sound.step` — every faithful step keeps the copies of the expiry together.
* `release_expires_iff` — when a release implies that broadcasts find the operation expired.
* `released_before_expiry` — inputs that are released while the transaction is still sent.
-/

namespace VizorWallet.Ledger

open Send (LockOwner LockRow World SendEvent SendOperation Carries SignedFor RowsContinue Shrinks)

/-! ## Pending operations -/

/-- No operation of this name is pending. -/
def Ended (outbox : Outbox) (operationId : String) : Prop :=
  ∀ operation ∈ outbox.operations, operation.operationId = operationId →
    operation.state ≠ .signedPendingBroadcast

/-- The operation was made of these rounds, whose owners are signed. -/
structure Checkpointed (rounds : List SignedRound) (operation : Operation) (rows : List LockRow) :
    Prop where
  made : operation.rounds = rounds
  expiries : ∀ round ∈ rounds, ∀ other ∈ rounds, round.expiryHeight = other.expiryHeight
  signed : ∀ owner ∈ boundOwners rounds, SignedFor operation.operationId owner rows

/-- What a commit does to the rows of owners with a PCZT, and where its pending operations come
from. -/
structure Progress (expiry : Option ℕ) (rounds : List SignedRound) (world state : World) :
    Prop where
  carries : Carries expiry (Ended state.outbox) world state
  operations : ∀ operation ∈ state.outbox.operations, operation.state = .signedPendingBroadcast →
    (∃ old ∈ world.outbox.operations, old.state = .signedPendingBroadcast ∧
      old.operationId = operation.operationId ∧ old.rounds = operation.rounds) ∨
    Checkpointed rounds operation state.rows

variable {expiry : Option ℕ} {rounds : List SignedRound} {world middle state : World}

/-- A commit that does not write the outbox. -/
theorem Progress.of_leaves (hcarries : Carries expiry (Ended state.outbox) world state)
    (hoperations : state.outbox.operations = world.outbox.operations) :
    Progress expiry rounds world state where
  carries := hcarries
  operations operation hmem hstate := .inl ⟨operation, hoperations ▸ hmem, hstate, rfl, rfl⟩

theorem Progress.refl (expiry : Option ℕ) (rounds : List SignedRound) (world : World) :
    Progress expiry rounds world world :=
  .of_leaves (.refl _ _ _) rfl

/-- Rows may be deleted afterwards. -/
theorem Progress.shrink (h : Progress expiry rounds world middle)
    (hoperations : state.outbox.operations = middle.outbox.operations)
    (hbound : state.bound = middle.bound) (hrows : state.rows ⊆ middle.rows) :
    Progress expiry rounds world state where
  carries := by
    have hended : Ended state.outbox = Ended middle.outbox := by
      unfold Ended
      rw [hoperations]
    rw [hended]
    exact ⟨hbound ▸ h.carries.bound, h.carries.rows.trans (.of_subset hrows), by
      rw [hbound]
      intro owner howner hnew
      obtain ⟨height, hheight, hmade⟩ := h.carries.made owner howner hnew
      exact ⟨height, hheight, fun row hrow => hmade row (hrows hrow)⟩⟩
  operations operation hmem hstate := by
    refine (h.operations operation (hoperations ▸ hmem) hstate).imp_right fun hnew => ?_
    refine ⟨hnew.made, hnew.expiries, fun owner howner row hrow => ?_⟩
    exact hnew.signed owner howner row (hrows hrow)

/-! ## Commits of the wallet -/

/-- The expiry that a PCZT is made with. -/
def createdExpiry : SendOperation → Option ℕ
  | .finishPczt _ liveExpiryHeight _ _ => some liveExpiryHeight
  | _ => none

/-- The rounds that are checkpointed. -/
def checkpointRounds : SendOperation → List SignedRound
  | .checkpointBatch _ _ _ _ _ rounds => rounds
  | _ => []

theorem expiries_of_validated {expiryHeight : Option ℕ}
    (h : validatedExpiryHeight rounds = .ok expiryHeight) :
    ∀ round ∈ rounds, ∀ other ∈ rounds, round.expiryHeight = other.expiryHeight := by
  cases rounds with
  | nil => exact nofun
  | cons first rest =>
    simp only [validatedExpiryHeight, bind_eq_ok] at h
    obtain ⟨⟨⟩, hrest, -⟩ := h
    have hsame : ∀ round ∈ first :: rest, round.expiryHeight = first.expiryHeight := by
      refine List.forall_mem_cons.2 ⟨rfl, fun round hround => ?_⟩
      obtain ⟨index, hindex, rfl⟩ := List.mem_iff_getElem.1 hround
      have hindexed : (rest[index], index) ∈ rest.zipIdx :=
        List.mk_mem_zipIdx_iff_getElem?.2 (List.getElem?_eq_getElem hindex)
      simpa using forM_eq_ok.1 hrest _ hindexed
    intro round hround other hother
    rw [hsame round hround, hsame other hother]

theorem checkpoint_progress {validate : Except String Unit} {operationId accountUuid : String}
    {kind : OperationKind} {externalRef : Option String} {outbox : Outbox} (h : world.Sound)
    (hcheckpoint : checkpointBatch world.session world.shuttingDown validate operationId accountUuid
      kind externalRef rounds world.outbox = .ok outbox) :
    Progress expiry rounds world { world with outbox := outbox } := by
  simp only [checkpointBatch, bind_eq_ok] at hcheckpoint
  obtain ⟨-, -, -, -, -, -, expiryHeight, hexpiry, -, -, -, -, hcheckpoint⟩ := hcheckpoint
  split at hcheckpoint
  · simp only [bind_eq_ok, pure_eq_ok] at hcheckpoint
    obtain ⟨-, -, rfl⟩ := hcheckpoint
    exact .refl expiry rounds world
  · simp only [bind_eq_ok, pure_eq_ok] at hcheckpoint
    obtain ⟨rows, hrows, rfl⟩ := hcheckpoint
    obtain ⟨hcontinues, hsigned⟩ := Send.checkpointOwners_spec _ h.disk.agree hrows
    refine ⟨.of_rows rfl ((hcontinues world.bound).mono fun _ h => absurd h id),
      fun operation hmem hstate => ?_⟩
    obtain hold | hnew := List.mem_append.1 hmem
    · exact .inl ⟨operation, hold, hstate, rfl, rfl⟩
    · obtain rfl := List.mem_singleton.1 hnew
      exact .inr ⟨rfl, expiries_of_validated hexpiry, hsigned⟩

theorem operation_progress {operation : SendOperation} (h : world.Sound)
    (hgenuine : operation.Genuine world) (hresult : ¬ isResult operation) :
    ∀ state ∈ operation.states world,
      Progress (createdExpiry operation) (checkpointRounds operation) world state := by
  intro state hstate
  by_cases hwrites : writesOutbox operation
  · cases operation with
    | checkpointBatch =>
      obtain ⟨outbox, hcheckpoint, rfl⟩ := mem_commit.1 hstate
      exact checkpoint_progress h hcheckpoint
    | applyBroadcastOutcome => exact absurd rfl hresult
    | recordBroadcastFailure => exact absurd rfl hresult
    | _ => cases hwrites
  · refine .of_leaves ?_ (leavesOutbox hwrites state hstate)
    cases operation with
    | proposeSend => exact Send.propose_carries h hgenuine.1 state hstate
    | beginPczt => exact Send.begin_shrinks.carries state hstate
    | finishPczt => exact Send.finishPczt_carries h state hstate
    | markBroadcastStarted => exact Send.markStarted_carries state hstate
    | discard => exact Send.discard_shrinks.carries state hstate
    | finish => exact Send.finishInner_shrinks.carries state hstate
    | retain => exact Send.retain_carries state hstate
    | shutdown =>
      obtain rfl | hcleanup := List.mem_cons.1 hstate
      · exact .of_rows rfl (.of_subset (List.Subset.refl _))
      · obtain ⟨hbound, hrows⟩ := Send.shutdownCleanup_shrinks state hcleanup
        exact .of_rows hbound (.of_subset hrows)
    | recoverBeforeBalance =>
      exact (@Send.recoverPrevious_shrinks world none).carries state hstate
    | _ => exact absurd rfl hwrites

/-! ## Results of broadcasts -/

variable {operation : Operation} {operationId : String} {outbox outbox' : Outbox}

/-- Rows are released only for operations that have ended. -/
theorem rows_continue_of_release {owners : List LockOwner}
    (hrows : outbox'.rows = outbox.rows ∨
      Ended outbox' operationId ∧ outbox'.rows = Send.releaseOperation operationId outbox.rows) :
    RowsContinue (Ended outbox') owners outbox.rows outbox'.rows := by
  obtain hsame | ⟨hended, hreleased⟩ := hrows
  · rw [hsame]
    exact .of_subset (List.Subset.refl _)
  · rw [hreleased]
    exact Send.releaseOperation_continues hended

theorem apply_pending {kind : OperationKind} {outcome : BroadcastOutcome}
    (h : applyBroadcastOutcome operationId kind outcome outbox = .ok outbox') :
    (∀ operation ∈ outbox'.operations, operation.state = .signedPendingBroadcast →
      operation ∈ outbox.operations ∧ operation.operationId ≠ operationId) ∧
    (outbox'.rows = outbox.rows ∨
      outbox'.rows = Send.releaseOperation operationId outbox.rows) := by
  simp only [applyBroadcastOutcome, bind_eq_ok, pure_eq_ok] at h
  obtain ⟨-, -, rfl⟩ := h
  refine ⟨fun operation hmem hstate => ?_, (em _).symm.imp (if_neg ·) (if_pos ·)⟩
  dsimp only at hmem
  split_ifs at hmem with hterminal
  · obtain ⟨hold, hkept⟩ := List.mem_filter.1 hmem
    exact ⟨hold, by simpa [hterminal] using hkept⟩
  · obtain ⟨old, hold, rfl⟩ := List.mem_map.1 hmem
    split_ifs at hstate ⊢ with hchanges
    exact ⟨hold, fun hsame => hchanges (decide_eq_true ⟨hsame, .inr hstate⟩)⟩

theorem failure_pending (operationId message : String) (outbox : Outbox) :
    (∀ operation ∈ (recordBroadcastFailure operationId message outbox).1.operations,
      operation.state = .signedPendingBroadcast → ∃ old ∈ outbox.operations,
        old.state = .signedPendingBroadcast ∧ old.operationId = operation.operationId ∧
          old.rounds = operation.rounds) ∧
    ((recordBroadcastFailure operationId message outbox).1.rows = outbox.rows ∨
      Ended (recordBroadcastFailure operationId message outbox).1 operationId ∧
      (recordBroadcastFailure operationId message outbox).1.rows =
        Send.releaseOperation operationId outbox.rows) := by
  unfold recordBroadcastFailure
  dsimp only
  split_ifs
  · refine ⟨fun operation hmem hstate => ⟨operation, List.mem_of_mem_filter hmem, hstate, rfl, rfl⟩,
      .inr ⟨fun operation hmem hsame hstate => ?_, rfl⟩⟩
    have hkept := (List.mem_filter.1 hmem).2
    simp [hsame, hstate] at hkept
  · refine ⟨fun operation hmem hstate => ?_, .inl rfl⟩
    obtain ⟨old, hold, rfl⟩ := List.mem_map.1 hmem
    refine ⟨old, hold, ?_⟩
    split_ifs at hstate ⊢ with hpending
    · exact ⟨(of_decide_eq_true hpending).2, rfl, rfl⟩
    · exact ⟨hstate, rfl, rfl⟩

/-- A result ends its operation when it releases the reservation. -/
theorem result_progress {state : World} {operation : Operation} {recorded : Bool}
    {result : Except String BroadcastOutcome}
    (hstate : state ∈ recordResult operation recorded world result) :
    Progress expiry rounds world state := by
  obtain ⟨-, ⟨outcome, outbox, -, happly, rfl⟩ | ⟨error, -, rfl⟩⟩ := mem_recordResult hstate
  · obtain ⟨hpending, hrows⟩ := apply_pending happly
    have hended : Ended outbox operation.operationId := fun other hmem hsame hother =>
      (hpending other hmem hother).2 hsame
    refine ⟨.of_rows rfl (rows_continue_of_release (hrows.imp_right fun h => ⟨hended, h⟩)), ?_⟩
    intro other hmem hother
    exact .inl ⟨other, (hpending other hmem hother).1, hother, rfl, rfl⟩
  · obtain ⟨hpending, hrows⟩ := failure_pending operation.operationId error world.outbox
    exact ⟨.of_rows rfl (rows_continue_of_release hrows), fun other hmem hother =>
      .inl (hpending other hmem hother)⟩

theorem resultStates_progress {state : World} {operation : Operation} {recorded : Bool}
    {result : Except String BroadcastOutcome}
    (hstate : state ∈ resultStates operation recorded world result) :
    Progress expiry rounds world state := by
  obtain hrecord | hrecover := List.mem_append.1 hstate
  · exact result_progress hrecord
  · have hlast : Progress expiry rounds world
        (world.last (recordResult operation recorded world result)) := by
      obtain hsame | hmem := @Send.last_eq_or_mem world
        (recordResult operation recorded world result)
      · rw [hsame]
        exact .refl expiry rounds world
      · exact result_progress hmem
    obtain ⟨hbound, hrows⟩ := @Send.recoverPrevious_shrinks _ none state hrecover
    exact hlast.shrink (@recoverPrevious_leaves _ none state hrecover) hbound hrows

/-! ## Steps -/

/-- What every commit does, the state in which a call ends has done. -/
theorem Ending.progress {states : List World} (h : ∀ state ∈ states,
    Progress expiry rounds world state) (ending : Ending) :
    Progress expiry rounds world (ending.apply world states) := by
  have hlast (commits : List World) (hcommits : commits ⊆ states) :
      Progress expiry rounds world (world.last commits) := by
    obtain hsame | hmem := @Send.last_eq_or_mem world commits
    · rw [hsame]
      exact .refl expiry rounds world
    · exact h _ (hcommits hmem)
  cases ending with
  | returns => exact hlast states (List.Subset.refl _)
  | crash commits session =>
    exact (hlast _ (List.take_subset commits states)).shrink rfl rfl (List.Subset.refl _)

/-- The operation of the wallet that a step calls. -/
def operationOf : LedgerEvent → Option SendOperation
  | .wallet (.complete operation) | .wallet (.crash operation _ _) => some operation
  | _ => none

/-- The expiry that a step makes a PCZT with. -/
def eventExpiry (event : LedgerEvent) : Option ℕ := (operationOf event).bind createdExpiry

/-- The rounds that a step checkpoints. -/
def eventRounds (event : LedgerEvent) : List SignedRound :=
  ((operationOf event).map checkpointRounds).getD []

theorem ledgerStep_progress {world : LedgerWorld} {event : LedgerEvent} (h : world.Sound)
    (hgenuine : event.Genuine world) :
    Progress (eventExpiry event) (eventRounds event) world.wallet
      (ledgerStep world event).wallet := by
  cases event with
  | wallet event =>
    cases event with
    | complete operation =>
      exact Ending.returns.progress (operation_progress h.wallet hgenuine.1 hgenuine.2)
    | crash operation commits session =>
      exact (Ending.crash commits session).progress
        (operation_progress h.wallet hgenuine.1 hgenuine.2)
    | others outputLocks => exact (Progress.refl _ _ _).shrink rfl rfl (List.Subset.refl _)
  | broadcast operationId answers ending =>
    dsimp only [ledgerStep]
    split
    · exact .refl _ _ _
    · cases ending with
      | recorded ending => exact ending.progress fun state => resultStates_progress
      | unrecorded ending => exact ending.progress fun state => resultStates_progress
      | crash sent session => exact (Progress.refl _ _ _).shrink rfl rfl (List.Subset.refl _)
  | acknowledge operationId =>
    dsimp only [ledgerStep]
    cases hresult : acknowledge operationId world.wallet.outbox with
    | error => exact .refl _ _ _
    | ok outbox =>
      obtain rfl := (acknowledge_spec hresult).2
      exact ⟨.of_rows rfl (.of_subset (List.Subset.refl _)), fun operation hmem hstate =>
        .inl ⟨operation, List.mem_of_mem_filter hmem, hstate, rfl, rfl⟩⟩
  | recoverPreviousProcess targetHeight ending =>
    refine ending.progress fun state hstate => ?_
    obtain ⟨hbound, hrows⟩ := Send.recoverPrevious_shrinks state hstate
    exact .of_leaves (.of_rows hbound (.of_subset hrows)) (recoverPrevious_leaves state hstate)

/-! ## Runs -/

/-- A world, with the expiry that the PCZT of each owner was made with. -/
structure PinnedWorld where
  ledger : LedgerWorld
  expiryOf : LockOwner → Option ℕ

def pinnedStep (world : PinnedWorld) (event : LedgerEvent) : PinnedWorld :=
  let ledger := ledgerStep world.ledger event
  ⟨ledger, fun owner =>
    if owner ∈ ledger.wallet.bound ∧ owner ∉ world.ledger.wallet.bound then eventExpiry event
    else world.expiryOf owner⟩

def pinned (initial : World) : Transition PinnedWorld LedgerEvent :=
  ⟨⟨⟨initial, []⟩, fun _ => none⟩, fun world event => some (pinnedStep world event)⟩

/-- The transaction of a PCZT that is bound to an owner has the expiry that the PCZT was made
with. -/
def Faithful (world : PinnedWorld) (event : LedgerEvent) : Prop :=
  event.Genuine world.ledger ∧ ∀ round ∈ eventRounds event, ∀ owner ∈ round.owner,
    world.expiryOf owner = some round.expiryHeight

/-- The copies of the expiry of pending operations, and who has signed them. -/
structure Pinned (world : PinnedWorld) (operation : Operation) : Prop where
  expiries : ∀ round ∈ operation.rounds, ∀ other ∈ operation.rounds,
    round.expiryHeight = other.expiryHeight
  owners : ∀ round ∈ operation.rounds, ∀ owner ∈ round.owner,
    world.expiryOf owner = some round.expiryHeight ∧
      SignedFor operation.operationId owner world.ledger.wallet.rows

structure PinnedWorld.Sound (world : PinnedWorld) : Prop where
  ledger : world.ledger.Sound
  rows : ∀ owner height, world.expiryOf owner = some height →
    owner ∈ world.ledger.wallet.bound ∧
      ∀ row ∈ world.ledger.wallet.rows, row.owner = owner → row.metadata.expiryHeight = height
  operations : ∀ operation ∈ world.ledger.operations,
    operation.state = .signedPendingBroadcast → Pinned world operation

section Runs

variable {world : PinnedWorld} {event : LedgerEvent} {initial : World} {owner : LockOwner}

theorem PinnedWorld.Sound.expiryOf_step (h : world.Sound) (hgenuine : event.Genuine world.ledger)
    {height : ℕ} (hheight : (pinnedStep world event).expiryOf owner = some height) :
    owner ∈ (pinnedStep world event).ledger.wallet.bound ∧
      ∀ row ∈ (pinnedStep world event).ledger.wallet.rows, row.owner = owner →
        row.metadata.expiryHeight = height := by
  have hcarries := (ledgerStep_progress h.ledger hgenuine).carries
  change (if owner ∈ (ledgerStep world.ledger event).wallet.bound ∧
    owner ∉ world.ledger.wallet.bound then _ else _) = _ at hheight
  split_ifs at hheight with hnew
  · obtain ⟨made, hmade, hrows⟩ := hcarries.made owner hnew.1 hnew.2
    obtain rfl : made = height := Option.some.inj (hmade.symm.trans hheight)
    exact ⟨hnew.1, hrows⟩
  · obtain ⟨hbound, hrows⟩ := h.rows owner height hheight
    refine ⟨hcarries.bound hbound, ?_⟩
    rintro row hrow rfl
    obtain ⟨old, hold, hsame, hcontinues⟩ := hcarries.rows row hrow hbound
    exact hcontinues.expiry.trans (hrows old hold hsame)

theorem PinnedWorld.Sound.expiryOf_kept (h : world.Sound) {height : ℕ}
    (hheight : world.expiryOf owner = some height) :
    (pinnedStep world event).expiryOf owner = some height := by
  have hbound := (h.rows owner height hheight).1
  exact (if_neg fun hnew => hnew.2 hbound).trans hheight

theorem mem_boundOwners {rounds : List SignedRound} {round : SignedRound} (hround : round ∈ rounds)
    (howner : owner ∈ round.owner) : owner ∈ boundOwners rounds :=
  List.mem_eraseDups.2 (List.mem_filterMap.2 ⟨round, hround, howner⟩)

theorem PinnedWorld.Sound.step (h : world.Sound) (hfaithful : Faithful world event) :
    (pinnedStep world event).Sound where
  ledger := h.ledger.step hfaithful.1
  rows _ _ hheight := h.expiryOf_step hfaithful.1 hheight
  operations operation hmem hstate := by
    have hprogress := ledgerStep_progress h.ledger hfaithful.1
    obtain ⟨old, hold, hpending, hid, hrounds⟩ | hnew :=
      hprogress.operations operation hmem hstate
    · have hpinned := h.operations old hold hpending
      refine ⟨hrounds ▸ hpinned.expiries, fun round hround owner howner => ?_⟩
      obtain ⟨hheight, hsigned⟩ := hpinned.owners round (hrounds ▸ hround) owner howner
      refine ⟨h.expiryOf_kept hheight, ?_⟩
      have hbound := (h.rows owner _ hheight).1
      exact (hid ▸ hsigned).continues hprogress.carries.rows hbound fun hended =>
        hended operation hmem rfl hstate
    · have hmade := hnew.made
      refine ⟨hmade ▸ hnew.expiries, fun round hround owner howner => ?_⟩
      have hround' : round ∈ eventRounds event := hmade ▸ hround
      exact ⟨h.expiryOf_kept (hfaithful.2 round hround' owner howner),
        hnew.signed owner (mem_boundOwners hround' howner)⟩

theorem sound_of_faithful (hinitial : initial.Upgraded) (hempty : initial.outbox.operations = [])
    (h : (pinned initial).Reaches Faithful world) : world.Sound := by
  refine h.invariant ⟨⟨hinitial.sound, ?_⟩, nofun, ?_⟩ fun world event world' hworld hfaithful
    hstep => Option.some.inj hstep ▸ hworld.step hfaithful
  · change Tidy initial.outbox.operations
    rw [hempty]
    exact ⟨List.nodup_nil, fun _ hmem => absurd hmem List.not_mem_nil,
      fun _ hmem => absurd hmem List.not_mem_nil⟩
  · change ∀ operation ∈ initial.outbox.operations, _
    rw [hempty]
    exact fun _ hmem => absurd hmem List.not_mem_nil

end Runs

/-! ## Recoveries -/

/-- A recovery at this target height releases an input of the owner. -/
def Releases (owner : LockOwner) (targetHeight : ℕ) (world : World) : Prop :=
  ∃ state ∈ Send.recoverPreviousProcess (some targetHeight) world, ∃ output,
    world.outputLocks output = some owner ∧ state.outputLocks output = none

/-- The table has an input that an earlier process has reserved for the owner, and it is locked. -/
def HeldByEarlier (owner : LockOwner) (world : World) : Prop :=
  ∃ row ∈ world.rows, row.owner = owner ∧ row.metadata.sessionId ≠ world.session ∧
    world.outputLocks row.output = some owner

section Recovery

variable {wallet : World} {owner : LockOwner} {targetHeight : ℕ}

/-- What a recovery releases, it finds in a row that it looks at. -/
theorem exists_row_of_releases (hagree : Send.Agree wallet.rows)
    (h : Releases owner targetHeight wallet) :
    ∃ row ∈ wallet.rows, row.owner = owner ∧ wallet.outputLocks row.output = some owner ∧
      row.metadata.isOrphan wallet.session ∧ Send.shouldReleaseAfterRestart
        row.metadata.retainUntilExpiry (some targetHeight) row.metadata.expiryHeight := by
  obtain ⟨state, hstate, output, hheld, hnone⟩ := h
  unfold Send.recoverPreviousProcess at hstate
  cases hread : Send.readPreviousSessionLocks wallet.session wallet.rows with
  | error =>
    rw [hread] at hstate
    cases hstate
  | ok locks =>
    rw [hread] at hstate
    have hreleased : Send.Released wallet.outputLocks state.outputLocks
        (Send.recoveryReleases (some targetHeight) locks) := by
      obtain hunlocking | hremoving := List.mem_append.1 hstate
      · obtain ⟨outputLocks, houtputLocks, rfl⟩ := List.mem_map.1 hunlocking
        exact Send.released_of_mem_unlockEach houtputLocks
      · rw [List.mem_singleton.1 hremoving]
        exact Send.released_unlockAll _ _
    obtain hsame | ⟨-, other, hother, hmem⟩ := hreleased output
    · cases (hheld.symm.trans hsame.symm).trans hnone
    · obtain rfl := Option.some.inj (hother.symm.trans hheld)
      obtain ⟨lock, hlock, hrelease⟩ := List.mem_flatMap.1 hmem
      obtain ⟨_, houtput, hpair⟩ := List.mem_map.1 hrelease
      obtain ⟨rfl, rfl⟩ := Prod.mk.inj hpair
      obtain ⟨row, hrow, howner, rfl⟩ :=
        Send.exists_row_of_mem_outputs hread (Send.mem_releasedAt.1 hlock).1 houtput
      obtain ⟨horphan, hreleases, -⟩ := Send.rows_of_released hagree hread
        (List.mem_map_of_mem hlock) row hrow howner
      exact ⟨row, hrow, howner, hheld, horphan, hreleases⟩

/-- A recovery at the expiry releases what an earlier process has reserved. -/
theorem releases_of_heldByEarlier (hagree : Send.Agree wallet.rows)
    (hexpiry : ∀ row ∈ wallet.rows, row.owner = owner →
      row.metadata.expiryHeight ≤ targetHeight)
    (h : HeldByEarlier owner wallet) : Releases owner targetHeight wallet := by
  obtain ⟨row, hrow, rfl, hsession, hheld⟩ := h
  obtain ⟨locks, hread⟩ := hagree.readPreviousSessionLocks wallet.session
  have horphan : row.metadata.isOrphan wallet.session := decide_eq_true (.inl hsession)
  obtain ⟨lock, hlock, hcolumns, houtput⟩ := (Send.readPreviousSessionLocks_spec hread).2 row hrow
    horphan
  simp only [Send.SendLock.columns, Send.LockRow.columns, Prod.mk.injEq] at hcolumns
  obtain ⟨howner, hlockExpiry, -⟩ := hcolumns
  have hreleases : Send.shouldReleaseAfterRestart lock.retainUntilExpiry (some targetHeight)
      lock.expiryHeight := by
    have hle := hexpiry row hrow rfl
    rw [hlockExpiry]
    simp [Send.shouldReleaseAfterRestart, hle]
  have hmem : (row.owner, row.output) ∈ Send.recoveryReleases (some targetHeight) locks := by
    refine List.mem_flatMap.2 ⟨lock, Send.mem_releasedAt.2 ⟨hlock, hreleases⟩, ?_⟩
    exact List.mem_map.2 ⟨row.output, houtput, by rw [howner]⟩
  unfold Releases Send.recoverPreviousProcess
  rw [hread]
  refine ⟨_, List.mem_append_right _ (List.mem_singleton_self _), row.output, hheld, ?_⟩
  obtain hsame | ⟨hnone, -⟩ := Send.released_unlockAll wallet.outputLocks
    (Send.recoveryReleases (some targetHeight) locks) row.output
  · exact absurd (hsame.trans hheld) (Send.unlockAll_ne hmem)
  · exact hnone

end Recovery

/-! ## The two comparisons -/

/-- At this chain tip a broadcast finds the operation expired, and sends nothing. -/
def AnswersExpired (rounds : List SignedRound) (height : ℕ) : Prop :=
  ∀ answers : BroadcastAnswers, answers.chainTip = .ok height → ∃ message,
    storeAndBroadcast answers rounds = ([], .ok ⟨joinedTxids rounds, .expired, some message⟩)

/-- A broadcast is stopped from the expiry height on. -/
theorem answersExpired_iff {rounds : List SignedRound} {height expiryHeight : ℕ}
    (hrounds : rounds ≠ []) (hpos : 0 < expiryHeight)
    (hexpiry : ∀ round ∈ rounds, round.expiryHeight = expiryHeight) :
    AnswersExpired rounds height ↔ expiryHeight ≤ height := by
  obtain ⟨first, rest, rfl⟩ := List.exists_cons_of_ne_nil hrounds
  have hfirst := hexpiry first List.mem_cons_self
  constructor
  · intro hexpired
    by_contra hlt
    have hlive : expiryError (first :: rest) height = none := by
      refine List.findSome?_eq_none_iff.2 fun round hround => if_pos (.inr ?_)
      rw [hexpiry round hround]
      exact Nat.lt_of_not_le hlt
    -- a server whose transport fails has been sent the first transaction
    let answers : BroadcastAnswers :=
      ⟨.ok (), .ok (), .ok height, fun _ => .ok (), fun _ => .error "", .ok ()⟩
    have htip : answers.chainTip = .ok height := rfl
    obtain ⟨message, hresult⟩ := hexpired answers htip
    have hsent := congrArg Prod.fst hresult
    simp only [storeAndBroadcast, htip, hlive] at hsent
    cases hsent
  · intro hle answers htip
    obtain ⟨message, hmessage⟩ : ∃ message,
        pcztBroadcastExpiryError first.txid first.expiryHeight height = some message :=
      ⟨_, if_neg (by omega)⟩
    refine ⟨message, ?_⟩
    rw [storeAndBroadcast, htip]
    dsimp only
    rw [expiryError, List.findSome?_cons, hmessage]

/-- In every faithful run, a recovery at a chain tip releases an input of a pending operation only
when broadcasts at this tip and later find the operation expired, if and only if the tip is not the
last one before the expiry, or no earlier process holds an input. -/
theorem release_expires_iff {initial : World} (hinitial : initial.Upgraded)
    (hempty : initial.outbox.operations = []) {world : PinnedWorld}
    (h : (pinned initial).Reaches Faithful world) {operationId : String} {operation : Operation}
    (hload : loadForBroadcast operationId world.ledger.wallet.outbox = .ok operation)
    {round : SignedRound} (hround : round ∈ operation.rounds) {owner : LockOwner}
    (howner : round.owner = some owner) (hexpiry : 0 < round.expiryHeight) (tip : ℕ) :
    (Releases owner (tip + 1) world.ledger.wallet →
        ∀ height, tip ≤ height → AnswersExpired operation.rounds height) ↔
      tip + 1 ≠ round.expiryHeight ∨ ¬ HeldByEarlier owner world.ledger.wallet := by
  have hsound := sound_of_faithful hinitial hempty h
  obtain ⟨hmem, -, hstate⟩ := mem_of_load hload
  have hpinned := hsound.operations operation hmem hstate
  obtain ⟨hheight, hsigned⟩ := hpinned.owners round hround owner howner
  have hrows := (hsound.rows owner _ hheight).2
  have hexpired (height : ℕ) : AnswersExpired operation.rounds height ↔
      round.expiryHeight ≤ height :=
    answersExpired_iff (List.ne_nil_of_mem hround) hexpiry fun other hother =>
      hpinned.expiries other hother round hround
  have hagree := hsound.ledger.wallet.disk.agree
  constructor
  · intro hrelease
    by_contra! hnot
    obtain ⟨hlast, hheld⟩ := hnot
    have hreleases : Releases owner (tip + 1) world.ledger.wallet :=
      releases_of_heldByEarlier hagree (fun row hrow hsame => (hrows row hrow hsame).trans_le
        hlast.symm.le) hheld
    have hle := (hexpired tip).1 (hrelease hreleases tip (Nat.le_refl tip))
    omega
  · intro hcondition hreleases height hle
    obtain ⟨row, hrow, hsame, hheld, horphan, hshould⟩ := exists_row_of_releases hagree hreleases
    have hdurable := (hsigned row hrow hsame).1
    have hretain := (hsound.ledger.wallet.disk.coherent row hrow).retained hdurable
    have hreached : round.expiryHeight ≤ tip + 1 := by
      simpa [Send.shouldReleaseAfterRestart, hretain, hrows row hrow hsame] using hshould
    have hsession : row.metadata.sessionId ≠ world.ledger.wallet.session := by
      refine (of_decide_eq_true horphan).resolve_right fun hphase => ?_
      simp [Send.LockMetadata.isDurable, hphase] at hdurable
    have hlast : tip + 1 ≠ round.expiryHeight :=
      hcondition.resolve_right fun hnone => hnone ⟨row, hrow, hsame, hsession, hheld⟩
    exact (hexpired height).2 (by omega)

/-- Another process starts. -/
def sampleRestart : LedgerEvent :=
  .wallet (.crash .recoverBeforeBalance 0 (Send.sampleSession 2))

/-- A deposit that expires at 160 is signed, and another process starts. -/
def sampleSigned : PinnedWorld :=
  [samplePropose, sampleBegin, sampleFinish, sampleCheckpoint, sampleRestart].foldl pinnedStep
    ⟨⟨Send.sampleWorld, []⟩, fun _ => none⟩

theorem sampleSigned_reaches : (pinned Send.sampleWorld).Reaches Faithful sampleSigned := by
  have hfree (output : Send.OutputRef) :
      Send.sampleWorld.outputLocks output ≠ some (Send.sampleOwner 1) :=
    fun hheld => absurd (Send.sampleWorld_held hheld).2 (by decide)
  have hbound : ∀ owner ∈ boundOwners [sampleRound], owner ∈ Send.sampleProposed.bound := by
    decide +kernel
  have hproposed : (pinned Send.sampleWorld).Reaches Faithful _ :=
    Transition.Reaches.init.step (e := samplePropose) ⟨⟨⟨by decide, hfree⟩, by decide⟩, nofun⟩ rfl
  have hmade : (pinned Send.sampleWorld).Reaches Faithful _ :=
    (hproposed.step (e := sampleBegin) ⟨⟨trivial, by decide⟩, nofun⟩ rfl).step
      (e := sampleFinish) ⟨⟨trivial, by decide⟩, nofun⟩ rfl
  have hsigned : (pinned Send.sampleWorld).Reaches Faithful _ :=
    hmade.step (e := sampleCheckpoint)
      ⟨⟨hbound, by decide⟩, by decide +kernel⟩ rfl
  exact hsigned.step (e := sampleRestart) ⟨⟨trivial, by decide⟩, nofun⟩ rfl

theorem sampleSigned_load :
    loadForBroadcast "deposit" sampleSigned.ledger.wallet.outbox = .ok sampleDeposit := by
  decide +kernel

theorem sampleSigned_held : HeldByEarlier (Send.sampleOwner 1) sampleSigned.ledger.wallet := by
  unfold HeldByEarlier
  decide +kernel

/-- A release at the tip before the last one implies that broadcasts find the deposit expired. -/
theorem release_expires_sample :
    (Releases (Send.sampleOwner 1) 159 sampleSigned.ledger.wallet →
      ∀ height, 158 ≤ height → AnswersExpired [sampleRound] height) ∧
    ¬ (Releases (Send.sampleOwner 1) 160 sampleSigned.ledger.wallet →
      ∀ height, 159 ≤ height → AnswersExpired [sampleRound] height) := by
  have hiff (tip : ℕ) := release_expires_iff Send.sampleWorld_upgraded rfl sampleSigned_reaches
    sampleSigned_load List.mem_cons_self rfl (by decide : 0 < sampleRound.expiryHeight) tip
  exact ⟨(hiff 158).2 (.inl (by decide)), fun h => (hiff 159).1 h |>.elim (· rfl)
    (· sampleSigned_held)⟩

/-- At the tip before the expiry the input is released, and the deposit is still sent. -/
theorem released_before_expiry : ¬ ∀ initial : World, initial.Upgraded →
    initial.outbox.operations = [] → ∀ world, (pinned initial).Reaches Faithful world →
    ∀ operationId operation,
      loadForBroadcast operationId world.ledger.wallet.outbox = .ok operation →
    ∀ round ∈ operation.rounds, ∀ owner ∈ round.owner, 0 < round.expiryHeight →
    ∀ tip, Releases owner (tip + 1) world.ledger.wallet →
    ∀ height, tip ≤ height → AnswersExpired operation.rounds height := by
  intro hall
  have hagree : Send.Agree sampleSigned.ledger.wallet.rows :=
    (sound_of_faithful Send.sampleWorld_upgraded rfl sampleSigned_reaches).ledger.wallet.disk.agree
  have hexpiry : ∀ row ∈ sampleSigned.ledger.wallet.rows, row.owner = Send.sampleOwner 1 →
      row.metadata.expiryHeight ≤ 160 := by
    decide +kernel
  have hreleases := releases_of_heldByEarlier hagree hexpiry sampleSigned_held
  have hexpired := hall Send.sampleWorld Send.sampleWorld_upgraded rfl _ sampleSigned_reaches _ _
    sampleSigned_load sampleRound List.mem_cons_self _ rfl (by decide) 159 hreleases 159 (by decide)
  have hle := (answersExpired_iff (List.cons_ne_nil _ _) (by decide)
    (List.forall_mem_singleton.2 (Eq.refl sampleRound.expiryHeight))).1 hexpired
  exact absurd hle (by decide)

end VizorWallet.Ledger
