import VizorWallet.Ledger.Moves
import Mathlib.Data.Nat.Count

/-!
# Broadcasts of several transactions

The transactions of a signed set are submitted in order until one is not accepted. What may be on
the network is stored, and the inputs of the proposal are released only when nothing can be.

## Main definitions

* `broadcastLoop` — the loop over the prepared transactions, for any outcomes of the attempts.
* `storeAndBroadcastPcztsInner` — the whole call, with the proposal that it may belong to.
* `LoopSpec`, `RunSpec` — what the loop and the call do.

## Main results

* `broadcastLoop_cases` — every attempt was accepted, or one is the first that was not.
* `ordered_broadcast` — the loop and the call meet their specifications.
* `inner_without_proposal` — without a proposal, the call is the broadcast of a signed operation.
-/

namespace VizorWallet.Ledger

open Send (World LockOwner StoredProposalLock)

/-! ## The loop -/

/-- How the loop ends: with a plan, with a failure, or in an arm that is marked as unreachable. -/
inductive LoopEnd where
  | plan (plan : PcztBroadcastPlan)
  | failure (error : String)
  | unreachable

def PcztBroadcastStep.ending : PcztBroadcastStep → LoopEnd
  | .next => .unreachable
  | .stop plan => .plan plan
  | .fail error => .failure error

/-- The loop of `store_and_broadcast_pczts_inner`: what was submitted, and how it ends. -/
def broadcastLoop {α : Type} (attempts : ℕ → PcztBroadcastAttempt) (totalCount : ℕ) :
    ℕ → List α → List α × LoopEnd
  | _, [] => ([], .unreachable)
  | index, item :: rest =>
    match attempts index with
    | .routeUnavailable error =>
      ([], (pcztBroadcastStep index totalCount (.routeUnavailable error)).ending)
    | attempt =>
      match pcztBroadcastStep index totalCount attempt with
      | .next =>
        let (submitted, ending) := broadcastLoop attempts totalCount (index + 1) rest
        (item :: submitted, ending)
      | step => ([item], step.ending)

def PcztBroadcastAttempt.isAccepted : PcztBroadcastAttempt → Bool
  | .accepted => true
  | _ => false

def PcztBroadcastAttempt.isUnknown : PcztBroadcastAttempt → Bool
  | .transportUnknown _ => true
  | _ => false

def PcztBroadcastAttempt.isRejection : PcztBroadcastAttempt → Bool
  | .definiteRejection _ => true
  | _ => false

/-- The transaction was submitted. -/
def PcztBroadcastAttempt.submits : PcztBroadcastAttempt → Bool
  | .routeUnavailable _ => false
  | _ => true

/-- What the loop does with its transactions. -/
structure LoopSpec {α : Type} (attempts : ℕ → PcztBroadcastAttempt) (items submitted : List α)
    (ending : LoopEnd) : Prop where
  ordered : submitted <+: items
  stops : ∀ index, index + 1 < submitted.length → (attempts index).isAccepted
  complete : submitted ≠ items → ∃ index < items.length, index ≤ submitted.length ∧
    ¬ (attempts index).isAccepted
  reachable : ending ≠ .unreachable
  persisted : ∀ plan, ending = .plan plan → plan.persistedPrefixLen =
    Nat.count (fun index => !(attempts index).isRejection) submitted.length
  count : ∀ plan, ending = .plan plan → plan.broadcastedCount =
    Nat.count (fun index => (attempts index).isAccepted) submitted.length
  failure : (∃ error, ending = .failure error) ↔ ∀ index < submitted.length,
    ¬ (attempts index).isAccepted ∧ ¬ (attempts index).isUnknown
  broadcasted : ∀ plan, ending = .plan plan → (plan.status = .broadcasted ↔
    ∀ index < items.length, (attempts index).isAccepted)
  unknown : ∀ plan, ending = .plan plan →
    (plan.status = .broadcastUnknown ↔ (attempts 0).isUnknown)

section Loop

variable {α : Type} {attempts : ℕ → PcztBroadcastAttempt} {totalCount index : ℕ} {items : List α}

theorem forall_lt_succ_of {n : ℕ} (hfirst : (attempts (index + 0)).isAccepted)
    (hrest : ∀ i < n, (attempts (index + 1 + i)).isAccepted) :
    ∀ i < n + 1, (attempts (index + i)).isAccepted := by
  rintro (_ | i) hi
  · exact hfirst
  · rw [← Nat.add_assoc, Nat.add_right_comm]
    exact hrest i (Nat.lt_of_succ_lt_succ hi)

/-- Every attempt was accepted, or one is the first that was not. -/
theorem broadcastLoop_cases (htotal : totalCount = index + items.length) (hitems : items ≠ []) :
    (∀ i < items.length, (attempts (index + i)).isAccepted) ∧
      broadcastLoop attempts totalCount index items =
        (items, .plan ⟨totalCount, totalCount, .broadcasted, none⟩) ∨
    ∃ i < items.length, (∀ before < i, (attempts (index + before)).isAccepted) ∧
      ¬ (attempts (index + i)).isAccepted ∧
      broadcastLoop attempts totalCount index items =
        (items.take (if (attempts (index + i)).submits then i + 1 else i),
          (pcztBroadcastStep (index + i) totalCount (attempts (index + i))).ending) := by
  induction items generalizing index with
  | nil => exact absurd rfl hitems
  | cons item rest ih =>
    rw [List.length_cons] at htotal
    rw [broadcastLoop]
    cases hattempt : attempts index with
    | accepted =>
      dsimp only
      by_cases hmore : rest = []
      · subst hmore
        obtain rfl : totalCount = index + 1 := htotal
        rw [pcztBroadcastStep, if_neg (Nat.lt_irrefl _)]
        refine .inl ⟨fun i hi => ?_, rfl⟩
        obtain rfl : i = 0 := by simpa using hi
        rw [Nat.add_zero, hattempt]
        rfl
      · have hlength : 0 < rest.length := List.length_pos_iff.2 hmore
        have hfirst : (attempts (index + 0)).isAccepted := by
          rw [Nat.add_zero, hattempt]
          rfl
        rw [pcztBroadcastStep, if_pos (by omega)]
        dsimp only
        obtain ⟨haccepted, hloop⟩ | ⟨i, hi, hbefore, hnot, hloop⟩ :=
          ih (by omega : totalCount = index + 1 + rest.length) hmore
        · rw [hloop]
          exact .inl ⟨forall_lt_succ_of hfirst haccepted, rfl⟩
        · rw [hloop]
          refine .inr ⟨i + 1, Nat.succ_lt_succ hi, forall_lt_succ_of hfirst hbefore, ?_, ?_⟩
          · rwa [← Nat.add_assoc, Nat.add_right_comm]
          · rw [← Nat.add_assoc, Nat.add_right_comm index i 1]
            split_ifs <;> rfl
    | transportUnknown error =>
      refine .inr ⟨0, Nat.succ_pos _, fun _ h => absurd h (Nat.not_lt_zero _), ?_⟩
      rw [Nat.add_zero, hattempt]
      exact ⟨Bool.false_ne_true, rfl⟩
    | definiteRejection error =>
      refine .inr ⟨0, Nat.succ_pos _, fun _ h => absurd h (Nat.not_lt_zero _), ?_⟩
      rw [Nat.add_zero, hattempt]
      refine ⟨Bool.false_ne_true, ?_⟩
      dsimp only
      by_cases hzero : index = 0
      · have hstep : pcztBroadcastStep index totalCount (.definiteRejection error) =
          .fail error := if_pos hzero
        rw [hstep]
        rfl
      · have hstep : pcztBroadcastStep index totalCount (.definiteRejection error) =
          .stop _ := if_neg hzero
        rw [hstep]
        rfl
    | routeUnavailable error =>
      refine .inr ⟨0, Nat.succ_pos _, fun _ h => absurd h (Nat.not_lt_zero _), ?_⟩
      rw [Nat.add_zero, hattempt]
      exact ⟨Bool.false_ne_true, rfl⟩

/-- Counting what holds of every number before the first of which it does not. -/
theorem count_of_forall {p : ℕ → Bool} {n : ℕ} (h : ∀ i < n, p i) : Nat.count (p ·) n = n :=
  Nat.count_iff_forall.2 h

theorem not_isRejection_of_isAccepted {attempt : PcztBroadcastAttempt} (h : attempt.isAccepted) :
    !attempt.isRejection := by
  cases attempt with
  | accepted => rfl
  | _ => cases h

theorem not_isUnknown_of_isAccepted {attempt : PcztBroadcastAttempt} (h : attempt.isAccepted) :
    ¬ attempt.isUnknown := by
  cases attempt with
  | accepted => exact nofun
  | _ => cases h

theorem submits_of_isUnknown {attempt : PcztBroadcastAttempt} (h : attempt.isUnknown) :
    attempt.submits := by
  cases attempt with
  | transportUnknown => rfl
  | _ => cases h

theorem loopSpec_of_accepted (hitems : items ≠ [])
    (haccepted : ∀ i < items.length, (attempts i).isAccepted) :
    LoopSpec attempts items items (.plan ⟨items.length, items.length, .broadcasted, none⟩) where
  ordered := List.prefix_refl items
  stops i hi := haccepted i (by omega)
  complete hne := absurd rfl hne
  reachable := nofun
  persisted := by
    rintro _ ⟨⟩
    exact (count_of_forall fun i hi => not_isRejection_of_isAccepted (haccepted i hi)).symm
  count := by
    rintro _ ⟨⟩
    exact (count_of_forall haccepted).symm
  failure := by
    have hpos := List.length_pos_iff.2 hitems
    exact ⟨nofun, fun hnone => absurd (haccepted 0 hpos) (hnone 0 hpos).1⟩
  broadcasted := by
    rintro _ ⟨⟩
    exact ⟨fun _ => haccepted, fun _ => rfl⟩
  unknown := by
    rintro _ ⟨⟩
    have hfirst := not_isUnknown_of_isAccepted (haccepted 0 (List.length_pos_iff.2 hitems))
    exact ⟨nofun, fun hunknown => absurd hunknown hfirst⟩

/-- How many transactions are submitted when the attempt at an index is the first that is not
accepted. -/
def submittedCount (attempts : ℕ → PcztBroadcastAttempt) (index : ℕ) : ℕ :=
  if (attempts index).submits then index + 1 else index

theorem count_submitted {i : ℕ} (hbefore : ∀ before < i, (attempts before).isAccepted)
    (hnot : ¬ (attempts i).isAccepted) :
    Nat.count (fun index => (attempts index).isAccepted) (submittedCount attempts i) = i ∧
    Nat.count (fun index => !(attempts index).isRejection) (submittedCount attempts i) =
      if (attempts i).isUnknown then i + 1 else i := by
  have haccepted : Nat.count (fun index => (attempts index).isAccepted) i = i :=
    count_of_forall hbefore
  have hkept : Nat.count (fun index => !(attempts index).isRejection) i = i :=
    count_of_forall fun before hlt => not_isRejection_of_isAccepted (hbefore before hlt)
  unfold submittedCount
  cases hattempt : attempts i with
  | accepted => exact absurd (by rw [hattempt]; rfl) hnot
  | transportUnknown error =>
    change Nat.count _ (i + 1) = i ∧ Nat.count _ (i + 1) = _
    rw [Nat.count_succ, Nat.count_succ, haccepted, hkept, hattempt]
    exact ⟨rfl, rfl⟩
  | definiteRejection error =>
    change Nat.count _ (i + 1) = i ∧ Nat.count _ (i + 1) = _
    rw [Nat.count_succ, Nat.count_succ, haccepted, hkept, hattempt]
    exact ⟨rfl, rfl⟩
  | routeUnavailable error => exact ⟨haccepted, hkept⟩

/-- How the loop ends at the first attempt that is not accepted. -/
inductive StopsAt (attempts : ℕ → PcztBroadcastAttempt) (index : ℕ) : LoopEnd → Prop
  | plan {plan : PcztBroadcastPlan} (hpersisted : plan.persistedPrefixLen =
      if (attempts index).isUnknown then index + 1 else index)
    (hcount : plan.broadcastedCount = index) (hstatus : plan.status ≠ .broadcasted)
    (hunknown : plan.status = .broadcastUnknown ↔ index = 0)
    (htouched : 0 < index ∨ (attempts index).isUnknown) : StopsAt attempts index (.plan plan)
  | failure {error : String} (hfirst : index = 0) (hnot : ¬ (attempts index).isUnknown) :
    StopsAt attempts index (.failure error)

theorem stopsAt_step {i : ℕ} (hnot : ¬ (attempts i).isAccepted) :
    StopsAt attempts i (pcztBroadcastStep i totalCount (attempts i)).ending := by
  cases hattempt : attempts i with
  | accepted => exact absurd (by rw [hattempt]; rfl) hnot
  | transportUnknown error =>
    have hunknown : (attempts i).isUnknown := by rw [hattempt]; rfl
    refine .plan (if_pos hunknown).symm rfl ?_ ?_ (.inr hunknown)
    · dsimp only
      split_ifs <;> exact nofun
    · dsimp only
      split_ifs with hzero <;> simp [hzero]
  | definiteRejection error =>
    have hunknown : ¬ (attempts i).isUnknown := by rw [hattempt]; exact nofun
    by_cases hzero : i = 0
    · have hstep : pcztBroadcastStep i totalCount (.definiteRejection error) = .fail error :=
        if_pos hzero
      rw [hstep]
      exact .failure hzero hunknown
    · have hstep : pcztBroadcastStep i totalCount (.definiteRejection error) = .stop _ :=
        if_neg hzero
      rw [hstep]
      exact .plan (if_neg hunknown).symm rfl nofun ⟨nofun, (absurd · hzero)⟩
        (.inl (Nat.pos_of_ne_zero hzero))
  | routeUnavailable error =>
    have hunknown : ¬ (attempts i).isUnknown := by rw [hattempt]; exact nofun
    by_cases hzero : i = 0
    · have hstep : pcztBroadcastStep i totalCount (.routeUnavailable error) = .fail error :=
        if_pos hzero
      rw [hstep]
      exact .failure hzero hunknown
    · have hstep : pcztBroadcastStep i totalCount (.routeUnavailable error) = .stop _ :=
        if_neg hzero
      rw [hstep]
      exact .plan (if_neg hunknown).symm rfl nofun ⟨nofun, (absurd · hzero)⟩
        (.inl (Nat.pos_of_ne_zero hzero))

theorem loopSpec_of_stopsAt {i : ℕ} {ending : LoopEnd} (hi : i < items.length)
    (hbefore : ∀ before < i, (attempts before).isAccepted) (hnot : ¬ (attempts i).isAccepted)
    (hstops : StopsAt attempts i ending) :
    LoopSpec attempts items (items.take (submittedCount attempts i)) ending := by
  have hbounds : i ≤ submittedCount attempts i ∧ submittedCount attempts i ≤ i + 1 := by
    unfold submittedCount
    split_ifs <;> omega
  have hlength : (items.take (submittedCount attempts i)).length = submittedCount attempts i := by
    rw [List.length_take]
    omega
  obtain ⟨hcount, hkept⟩ := count_submitted hbefore hnot
  have hall : ¬ ∀ index < items.length, (attempts index).isAccepted :=
    fun hall => hnot (hall i hi)
  refine ⟨List.take_prefix _ _, fun index hindex => hbefore index (by omega),
    fun _ => ⟨i, hi, by omega, hnot⟩, ?_, ?_, ?_, ?_, ?_, ?_⟩
  · cases hstops <;> exact nofun
  · rintro _ ⟨⟩
    cases hstops with
    | plan hpersisted => rw [hlength, hkept, hpersisted]
  · rintro _ ⟨⟩
    cases hstops with
    | plan _ hbroadcasted => rw [hlength, hcount, hbroadcasted]
  · rw [hlength]
    cases hstops with
    | plan _ _ _ _ htouched =>
      refine ⟨nofun, fun hnone => ?_⟩
      obtain hpos | hunknown := htouched
      · exact absurd (hbefore 0 hpos) (hnone 0 (by omega)).1
      · have hsubmitted : submittedCount attempts i = i + 1 :=
          if_pos (submits_of_isUnknown hunknown)
        exact absurd hunknown (hnone i (by omega)).2
    | @failure error hfirst hnotUnknown =>
      subst hfirst
      refine ⟨fun _ index hindex => ?_, fun _ => ⟨error, rfl⟩⟩
      obtain rfl : index = 0 := by omega
      exact ⟨hnot, hnotUnknown⟩
  · rintro _ ⟨⟩
    cases hstops with
    | plan _ _ hstatus => exact ⟨(absurd · hstatus), (absurd · hall)⟩
  · rintro _ ⟨⟩
    cases hstops with
    | plan _ _ _ hunknown htouched =>
      rw [hunknown]
      constructor
      · rintro rfl
        exact htouched.resolve_left (Nat.lt_irrefl 0)
      · intro hfirst
        by_contra hne
        exact not_isUnknown_of_isAccepted (hbefore 0 (Nat.pos_of_ne_zero hne)) hfirst

theorem loopSpec (attempts : ℕ → PcztBroadcastAttempt) {items : List α} (hitems : items ≠ []) :
    LoopSpec attempts items (broadcastLoop attempts items.length 0 items).1
      (broadcastLoop attempts items.length 0 items).2 := by
  obtain ⟨haccepted, hloop⟩ | ⟨i, hi, hbefore, hnot, hloop⟩ :=
    @broadcastLoop_cases α attempts items.length 0 items (Nat.zero_add _).symm hitems
  · simp only [Nat.zero_add] at haccepted
    rw [hloop]
    exact loopSpec_of_accepted hitems haccepted
  · simp only [Nat.zero_add] at hbefore hnot hloop
    rw [hloop]
    exact loopSpec_of_stopsAt hi hbefore hnot (stopsAt_step hnot)

/-- A failure comes from the first attempt. -/
theorem first_of_failure {error : String} (hitems : items ≠ [])
    (h : (broadcastLoop attempts items.length 0 items).2 = .failure error) :
    ¬ (attempts 0).isAccepted ∧ ¬ (attempts 0).isUnknown := by
  obtain ⟨-, hloop⟩ | ⟨i, -, -, hnot, hloop⟩ :=
    @broadcastLoop_cases α attempts items.length 0 items (Nat.zero_add _).symm hitems
  · rw [hloop] at h
    cases h
  · rw [hloop] at h
    simp only [Nat.zero_add] at h hnot
    have hstops := @stopsAt_step attempts items.length i hnot
    rw [h] at hstops
    cases hstops with
    | failure hfirst hunknown =>
      subst hfirst
      exact ⟨hnot, hunknown⟩

end Loop

/-! ## The call -/

/-- The storage of what may be on the network: the wallet is opened, and the transactions are stored
from their PCZTs, or else as they are found in a block. -/
structure StorageAnswers where
  opened : Except String Unit
  primary : Except String Unit
  fallback : Except String Unit

def StorageAnswers.stored (storage : StorageAnswers) : Except String Unit := do
  storage.opened
  match storage.primary with
  | .ok () => .ok ()
  | .error primaryError => storage.fallback.mapError fun fallbackError =>
    s!"Primary PCZT storage failed: {primaryError}. Fallback storage failed: {fallbackError}"

structure StoreAndBroadcastPcztsResult where
  txids : String
  status : OperationStatus
  broadcastedCount : ℕ
  totalCount : ℕ
  message : Option String

/-- What a call does: the transactions that it submits and those that it stores, its result, and the
wallet after each of its commits. The result is missing when an unreachable arm is reached. -/
structure BroadcastRun where
  submitted : List SignedRound
  persisted : List SignedRound
  result : Option (Except String StoreAndBroadcastPcztsResult)
  states : List World

/-- The first transaction uses the route that has read the chain tip. -/
def BroadcastAnswers.attemptAt (answers : BroadcastAnswers) (index : ℕ) : PcztBroadcastAttempt :=
  match if index = 0 then .ok () else answers.reopened index with
  | .error error => .routeUnavailable error
  | .ok () => (answers.sent index).attempt

/-- The proposal that a call belongs to, with its send flow. -/
abbrev Proposal := Option (ℕ × String)

/-- What `finish_stored_proposal` answers. -/
def finishAnswer (proposal : Proposal) (world : World) : Except String Unit :=
  match proposal with
  | none => .ok ()
  | some (proposalId, sendFlowId) =>
    match world.store.findLock proposalId with
    | none => .ok ()
    | some lock => ensure (lock.sendFlowId = sendFlowId) "Send flow mismatch"

def finishStates (proposal : Proposal) (releaseInputs : Bool) (world : World) : List World :=
  match proposal with
  | none => []
  | some (proposalId, sendFlowId) =>
    Send.finishStoredProposal proposalId sendFlowId releaseInputs world

def cleanupFailure (error cleanupError : String) : String :=
  s!"{error}; additionally failed to release proposal inputs: {cleanupError}"

/-- `release_signed_pczt_operation_after_failure` -/
def releaseAfterFailure (proposal : Proposal) (error : String) (world : World) : String :=
  match finishAnswer proposal world with
  | .ok () => error
  | .error cleanupError => cleanupFailure error cleanupError

/-- `mark_proposal_broadcast_started` -/
def markStarted (proposal : Proposal) (world : World) : Except String World :=
  match proposal with
  | none => .ok world
  | some (proposalId, sendFlowId) => do
    let lock ← Send.storedProposalLock proposalId sendFlowId world
    let rows ← Send.markRetainUntilExpiry lock.owner world.rows
    return world.withRows rows

/-- What `retain_stored_proposal_lock_until_expiry` answers. -/
def retainAnswer (proposal : Proposal) (world : World) : Except String Unit :=
  match proposal with
  | none => .ok ()
  | some (proposalId, sendFlowId) =>
    match world.store.findLock proposalId with
    | none => .ok ()
    | some lock => do
      ensure (lock.sendFlowId = sendFlowId) "Send flow mismatch"
      let _rows ← Send.markRetainUntilExpiry lock.owner world.rows
      ensure ((world.store.findProposal proposalId).all (·.sendFlowId = sendFlowId))
        "Send flow mismatch"

def retainStates (proposal : Proposal) (world : World) : List World :=
  match proposal with
  | none => []
  | some (proposalId, sendFlowId) =>
    Send.retainStoredProposalLockUntilExpiry proposalId sendFlowId world

/-- The message when the transactions could not be stored. -/
def storageFailure (proposal : Proposal) (plan : PcztBroadcastPlan) (storageError : String)
    (world : World) : String :=
  let retainError := match retainAnswer proposal world with
    | .ok () => ""
    | .error error => s!" Proposal input-lock retention also failed: {error}."
  (plan.message.map (· ++ " ")).getD "" ++
    "A transaction may already be on the network, but local storage failed: " ++ storageError ++
    ". Do not send again until sync or an explorer confirms the result." ++ retainError

def storedNote : String :=
  " The accepted-or-ambiguous transaction prefix was stored locally for recovery."

def storeAndBroadcastPcztsInner (answers : BroadcastAnswers) (storage : StorageAnswers)
    (proposal : Proposal) (rounds : List SignedRound) (world : World) : BroadcastRun :=
  let txids := joinedTxids rounds
  let totalCount := rounds.length
  match answers.chainTip with
  | .error error =>
    ⟨[], [], some (.error (releaseAfterFailure proposal error world)),
      finishStates proposal true world⟩
  | .ok height =>
    match expiryError rounds height with
    | some error =>
      ⟨[], [], some (match finishAnswer proposal world with
        | .ok () => .ok ⟨txids, .expired, 0, totalCount, some error⟩
        | .error cleanupError => .error (cleanupFailure error cleanupError)),
        finishStates proposal true world⟩
    | none =>
      match markStarted proposal world with
      | .error error => ⟨[], [], some (.error error), []⟩
      | .ok started =>
        match broadcastLoop answers.attemptAt totalCount 0 rounds with
        | (submitted, .unreachable) => ⟨submitted, [], none, [started]⟩
        | (submitted, .failure error) =>
          ⟨submitted, [], some (.error (releaseAfterFailure proposal error started)),
            started :: finishStates proposal true started⟩
        | (submitted, .plan plan) =>
          match storage.stored with
          | .ok () =>
            ⟨submitted, rounds.take plan.persistedPrefixLen,
              some (.ok ⟨txids, plan.status, plan.broadcastedCount, totalCount,
                plan.message.map (· ++ storedNote)⟩),
              started :: finishStates proposal false started⟩
          | .error storageError =>
            ⟨submitted, [],
              some (.ok ⟨txids,
                if plan.broadcastedCount = totalCount then .broadcastedStorageFailed
                else plan.status,
                plan.broadcastedCount, totalCount,
                some (storageFailure proposal plan storageError started)⟩),
              started :: retainStates proposal started⟩

/-! ## What the call does -/

/-- Nothing of the set can be on the network: the call failed before the first transaction, the set
has expired, or the first transaction was rejected. -/
def Untouched (answers : BroadcastAnswers) (rounds : List SignedRound) : Prop :=
  (∃ error, answers.chainTip = .error error) ∨
  (∃ height error, answers.chainTip = .ok height ∧ expiryError rounds height = some error) ∨
  (answers.attemptAt 0).isRejection

/-- A submitted transaction was accepted, or its result is not known. -/
def Touched (answers : BroadcastAnswers) (submitted : List SignedRound) : Prop :=
  ∃ index < submitted.length, (answers.attemptAt index).isAccepted ∨
    (answers.attemptAt index).isUnknown

/-- The owner of the proposal keeps its rows until they expire. -/
def RetainsOwner (proposalId : ℕ) (world state : World) : Prop :=
  ∃ lock, world.store.findLock proposalId = some lock ∧
    (∃ row ∈ state.rows, row.owner = lock.owner) ∧
    ∀ row ∈ state.rows, row.owner = lock.owner → row.metadata.retainUntilExpiry

/-- The loop is reached: the tip is known, nothing has expired, and the reservation is marked. -/
structure Starts (answers : BroadcastAnswers) (proposal : Proposal) (rounds : List SignedRound)
    (world : World) : Prop where
  current : ∃ height, answers.chainTip = .ok height ∧ expiryError rounds height = none
  marked : ∃ started, markStarted proposal world = .ok started

/-- The answer of a call whose loop has ended with a plan. -/
structure Reports (storage : StorageAnswers) (rounds : List SignedRound) (plan : PcztBroadcastPlan)
    (result : StoreAndBroadcastPcztsResult) : Prop where
  txids : result.txids = joinedTxids rounds
  status : result.status =
    if !storage.stored.isOk ∧ plan.broadcastedCount = rounds.length then .broadcastedStorageFailed
    else plan.status
  broadcastedCount : result.broadcastedCount = plan.broadcastedCount
  totalCount : result.totalCount = rounds.length

/-- What a call submits, answers, stores and does with the inputs of its proposal. -/
structure RunSpec (answers : BroadcastAnswers) (storage : StorageAnswers) (proposal : Proposal)
    (rounds : List SignedRound) (world : World) (run : BroadcastRun) : Prop where
  ends : run.result.isSome
  submitted : Starts answers proposal rounds world →
    run.submitted = (broadcastLoop answers.attemptAt rounds.length 0 rounds).1
  planned : Starts answers proposal rounds world → ∀ plan,
    (broadcastLoop answers.attemptAt rounds.length 0 rounds).2 = .plan plan →
      ∃ result, run.result = some (.ok result) ∧ Reports storage rounds plan result
  failed : Starts answers proposal rounds world → ∀ error,
    (broadcastLoop answers.attemptAt rounds.length 0 rounds).2 = .failure error →
      ∃ message, run.result = some (.error message)
  idle : ¬ Starts answers proposal rounds world → run.submitted = [] ∧
    ∀ result, run.result = some (.ok result) → ∃ height error, answers.chainTip = .ok height ∧
      expiryError rounds height = some error ∧
      result = ⟨joinedTxids rounds, .expired, 0, rounds.length, some error⟩
  persisted : storage.stored = .ok () → run.persisted = rounds.take
    (Nat.count (fun index => !(answers.attemptAt index).isRejection) run.submitted.length)
  lost : ∀ error, storage.stored = .error error → run.persisted = []
  unlocked : ∀ state ∈ run.states, state.outputLocks ≠ world.outputLocks →
    Untouched answers rounds
  retained : ∀ error, storage.stored = .error error → Touched answers run.submitted →
    ∀ proposalId sendFlowId, proposal = some (proposalId, sendFlowId) →
      RetainsOwner proposalId world (world.last run.states)

section Call

variable {answers : BroadcastAnswers} {storage : StorageAnswers} {proposal : Proposal}
  {rounds submitted : List SignedRound} {world started : World}

theorem attemptAt_zero (answers : BroadcastAnswers) :
    answers.attemptAt 0 = (answers.sent 0).attempt := rfl

/-- The first attempt has a route. -/
theorem isRejection_of_first (haccepted : ¬ (answers.attemptAt 0).isAccepted)
    (hunknown : ¬ (answers.attemptAt 0).isUnknown) : (answers.attemptAt 0).isRejection := by
  rw [attemptAt_zero] at *
  cases hanswer : answers.sent 0 with
  | error error =>
    rw [hanswer] at hunknown
    exact absurd rfl hunknown
  | ok response =>
    rw [hanswer] at haccepted
    cases hrejection : sendResponseRejectionError response with
    | some error => simp [SendAnswer.attempt, hrejection, PcztBroadcastAttempt.isRejection]
    | none => simp [SendAnswer.attempt, hrejection, PcztBroadcastAttempt.isAccepted] at haccepted

theorem markRetain_spec {owner : LockOwner} {rows rows' : List Send.LockRow}
    (h : Send.markRetainUntilExpiry owner rows = .ok rows') :
    (∃ row ∈ rows', row.owner = owner) ∧
      ∀ row ∈ rows', row.owner = owner → row.metadata.retainUntilExpiry := by
  simp only [Send.markRetainUntilExpiry, bind_eq_ok, ensure_eq_ok, pure_eq_ok, exists_const] at h
  obtain ⟨hupdated, rfl⟩ := h
  obtain ⟨row, hrow, hcondition⟩ := List.countP_pos_iff.1 (Nat.pos_of_ne_zero hupdated)
  refine ⟨⟨_, Send.mem_updateRows.2 ⟨row, hrow, rfl⟩, of_decide_eq_true hcondition⟩, ?_⟩
  intro row' hrow' howner
  obtain ⟨old, -, rfl⟩ := Send.mem_updateRows.1 hrow'
  dsimp only at howner ⊢
  rw [if_pos (decide_eq_true howner)]

/-- The start of a broadcast marks the reservation, and changes nothing else. -/
theorem markStarted_spec (h : markStarted proposal world = .ok started) :
    started.outputLocks = world.outputLocks ∧ started.store = world.store ∧
      ∀ proposalId sendFlowId, proposal = some (proposalId, sendFlowId) →
        RetainsOwner proposalId world started := by
  unfold markStarted at h
  split at h
  · obtain rfl := Except.ok.inj h
    exact ⟨rfl, rfl, nofun⟩
  · simp only [bind_eq_ok, pure_eq_ok] at h
    obtain ⟨lock, hlock, rows, hrows, rfl⟩ := h
    refine ⟨rfl, rfl, ?_⟩
    rintro _ _ ⟨⟩
    exact ⟨lock, Send.storedProposalLock_ok hlock, markRetain_spec hrows⟩

/-- Bookkeeping that does not release inputs leaves the locks of the wallet alone. -/
theorem finishStates_keeps : ∀ state ∈ finishStates proposal false world,
    state.outputLocks = world.outputLocks := by
  intro state hstate
  unfold finishStates Send.finishStoredProposal Send.finishStoredProposalInner at hstate
  split at hstate
  · cases hstate
  · split at hstate
    · cases hstate
    · split at hstate
      · cases hstate
      · rw [if_neg (Bool.false_ne_true)] at hstate
        obtain rfl | rfl := List.mem_pair.1 hstate <;> rfl

theorem retainStates_keeps (hstore : started.store = world.store) :
    ∀ state ∈ retainStates proposal started, state.outputLocks = started.outputLocks ∧
      ∀ proposalId sendFlowId, proposal = some (proposalId, sendFlowId) →
        RetainsOwner proposalId world state := by
  intro state hstate
  unfold retainStates Send.retainStoredProposalLockUntilExpiry at hstate
  split at hstate
  · cases hstate
  · split at hstate
    · cases hstate
    · rename_i lock hlock
      rw [hstore] at hlock
      split at hstate
      · cases hstate
      · split at hstate
        · cases hstate
        · rename_i rows hrows
          have hspec := markRetain_spec hrows
          split at hstate
          · obtain rfl := List.mem_singleton.1 hstate
            refine ⟨rfl, ?_⟩
            rintro _ _ ⟨⟩
            exact ⟨lock, hlock, hspec⟩
          · obtain rfl | rfl := List.mem_pair.1 hstate
            all_goals
              refine ⟨rfl, ?_⟩
              rintro _ _ ⟨⟩
              exact ⟨lock, hlock, hspec⟩

/-- A call that ends before its first transaction is submitted. -/
theorem runSpec_of_early {answer : Except String StoreAndBroadcastPcztsResult}
    {states : List World} (hidle : ¬ Starts answers proposal rounds world)
    (hexpired : ∀ result, answer = .ok result → ∃ height error, answers.chainTip = .ok height ∧
      expiryError rounds height = some error ∧
      result = ⟨joinedTxids rounds, .expired, 0, rounds.length, some error⟩)
    (hunlocked : ∀ state ∈ states, state.outputLocks ≠ world.outputLocks →
      Untouched answers rounds) :
    RunSpec answers storage proposal rounds world ⟨[], [], some answer, states⟩ where
  ends := rfl
  submitted := (absurd · hidle)
  planned := (absurd · hidle)
  failed := (absurd · hidle)
  idle _ := ⟨rfl, fun result hresult => hexpired result (Option.some.inj hresult)⟩
  persisted _ := rfl
  lost _ _ := rfl
  unlocked := hunlocked
  retained := by
    rintro _ - ⟨index, hindex, -⟩
    cases hindex

/-- The first transaction was rejected, and the inputs are released. -/
theorem runSpec_of_failure {error : String} (hstarts : Starts answers proposal rounds world)
    (hrounds : rounds ≠ []) (hloop : broadcastLoop answers.attemptAt rounds.length 0 rounds =
      (submitted, .failure error)) :
    RunSpec answers storage proposal rounds world
      ⟨submitted, [], some (.error (releaseAfterFailure proposal error started)),
        started :: finishStates proposal true started⟩ := by
  have hending : (broadcastLoop answers.attemptAt rounds.length 0 rounds).2 = .failure error := by
    rw [hloop]
  obtain ⟨haccepted, hunknown⟩ := first_of_failure hrounds hending
  have hrejected := isRejection_of_first haccepted hunknown
  have hspec := loopSpec answers.attemptAt hrounds
  rw [hloop] at hspec
  have hnone := hspec.failure.1 ⟨error, rfl⟩
  refine ⟨rfl, fun _ => by rw [hloop], fun _ plan hplan => ?_, fun _ _ _ => ⟨_, rfl⟩,
    (absurd hstarts ·), fun _ => ?_, fun _ _ => rfl, ?_, ?_⟩
  · rw [hending] at hplan
    cases hplan
  · -- At most one transaction was submitted, and it was rejected.
    have hshort : submitted.length ≤ 1 := by
      by_contra hmore
      exact haccepted (hspec.stops 0 (by dsimp only; omega))
    have hcount : Nat.count (fun index => !(answers.attemptAt index).isRejection)
        submitted.length = 0 := by
      refine Nat.eq_zero_of_le_zero ((Nat.count_monotone _ hshort).trans_eq ?_)
      rw [Nat.count_succ, Nat.count_zero, hrejected]
      rfl
    dsimp only
    rw [hcount, List.take_zero]
  · intro state hstate hne
    exact .inr (.inr hrejected)
  · rintro _ - ⟨index, hindex, haccepted | hunknown⟩
    · exact absurd haccepted (hnone index hindex).1
    · exact absurd hunknown (hnone index hindex).2

/-- The transactions were submitted as far as the network let them, and are stored. -/
theorem runSpec_of_stored {plan : PcztBroadcastPlan} {message : Option String}
    (hstarts : Starts answers proposal rounds world)
    (hstarted : started.outputLocks = world.outputLocks) (hrounds : rounds ≠ [])
    (hloop : broadcastLoop answers.attemptAt rounds.length 0 rounds = (submitted, .plan plan))
    (hstored : storage.stored = .ok ()) :
    RunSpec answers storage proposal rounds world
      ⟨submitted, rounds.take plan.persistedPrefixLen,
        some (.ok ⟨joinedTxids rounds, plan.status, plan.broadcastedCount, rounds.length, message⟩),
        started :: finishStates proposal false started⟩ where
  ends := rfl
  submitted _ := by rw [hloop]
  planned _ plan' hplan := by
    obtain rfl : plan = plan' := by simpa only [hloop, LoopEnd.plan.injEq] using hplan
    refine ⟨_, rfl, rfl, ?_, rfl, rfl⟩
    simp [hstored, Except.isOk, Except.toBool]
  failed _ error herror := by
    rw [hloop] at herror
    cases herror
  idle := (absurd hstarts ·)
  persisted _ := by
    have hspec := loopSpec answers.attemptAt hrounds
    rw [hloop] at hspec
    rw [hspec.persisted plan rfl]
  lost _ herror := by
    rw [hstored] at herror
    cases herror
  unlocked := by
    intro state hstate hne
    obtain rfl | hstate := List.mem_cons.1 hstate
    · exact absurd hstarted hne
    · exact absurd ((finishStates_keeps state hstate).trans hstarted) hne
  retained _ herror := by
    rw [hstored] at herror
    cases herror

/-- The transactions could not be stored, and the reservation is kept. -/
theorem runSpec_of_lost {plan : PcztBroadcastPlan} {storageError : String}
    {message : Option String} (hstarts : Starts answers proposal rounds world)
    (hmarked : markStarted proposal world = .ok started)
    (hloop : broadcastLoop answers.attemptAt rounds.length 0 rounds = (submitted, .plan plan))
    (hstored : storage.stored = .error storageError) :
    RunSpec answers storage proposal rounds world
      ⟨submitted, [],
        some (.ok ⟨joinedTxids rounds,
          if plan.broadcastedCount = rounds.length then .broadcastedStorageFailed else plan.status,
          plan.broadcastedCount, rounds.length, message⟩),
        started :: retainStates proposal started⟩ := by
  obtain ⟨hlocks, hstore, hretains⟩ := markStarted_spec hmarked
  have hkeeps := @retainStates_keeps proposal world started hstore
  refine ⟨rfl, fun _ => by rw [hloop], ?_, ?_, (absurd hstarts ·), ?_, fun _ _ => rfl, ?_, ?_⟩
  · intro _ plan' hplan
    obtain rfl : plan = plan' := by simpa only [hloop, LoopEnd.plan.injEq] using hplan
    refine ⟨_, rfl, rfl, ?_, rfl, rfl⟩
    simp [hstored, Except.isOk, Except.toBool]
  · intro _ error herror
    rw [hloop] at herror
    cases herror
  · intro hok
    rw [hstored] at hok
    cases hok
  · intro state hstate hne
    obtain rfl | hstate := List.mem_cons.1 hstate
    · exact absurd hlocks hne
    · exact absurd ((hkeeps state hstate).1.trans hlocks) hne
  · intro _ _ _ proposalId sendFlowId hproposal
    have hlast : world.last (started :: retainStates proposal started) =
        started.last (retainStates proposal started) := List.getLastD_cons
    rw [hlast]
    obtain hsame | hmem := @Send.last_eq_or_mem started (retainStates proposal started)
    · rw [hsame]
      exact hretains proposalId sendFlowId hproposal
    · exact (hkeeps _ hmem).2 proposalId sendFlowId hproposal

theorem runSpec (answers : BroadcastAnswers) (storage : StorageAnswers) (proposal : Proposal)
    (hrounds : rounds ≠ []) (world : World) :
    RunSpec answers storage proposal rounds world
      (storeAndBroadcastPcztsInner answers storage proposal rounds world) := by
  unfold storeAndBroadcastPcztsInner
  dsimp only
  cases htip : answers.chainTip with
  | error error =>
    refine runSpec_of_early (fun hstarts => ?_) nofun fun _ _ _ => .inl ⟨error, htip⟩
    obtain ⟨_, hheight, -⟩ := hstarts.current
    rw [htip] at hheight
    cases hheight
  | ok height =>
    dsimp only
    cases hexpired : expiryError rounds height with
    | some error =>
      refine runSpec_of_early (fun hstarts => ?_) (fun result hresult => ?_)
        fun _ _ _ => .inr (.inl ⟨height, error, htip, hexpired⟩)
      · obtain ⟨_, hheight, hnone⟩ := hstarts.current
        obtain rfl := Except.ok.inj (htip.symm.trans hheight)
        rw [hexpired] at hnone
        cases hnone
      · split at hresult
        · exact ⟨height, error, htip, hexpired, (Except.ok.inj hresult).symm⟩
        · cases hresult
    | none =>
      dsimp only
      cases hmarked : markStarted proposal world with
      | error error =>
        refine runSpec_of_early (fun hstarts => ?_) nofun nofun
        obtain ⟨_, hstarted⟩ := hstarts.marked
        rw [hmarked] at hstarted
        cases hstarted
      | ok started =>
        have hstarts : Starts answers proposal rounds world :=
          ⟨⟨height, htip, hexpired⟩, started, hmarked⟩
        have hstarted := (markStarted_spec hmarked).1
        have hreachable := (loopSpec answers.attemptAt hrounds).reachable
        cases hloop : broadcastLoop answers.attemptAt rounds.length 0 rounds with
        | mk submitted ending =>
          rw [hloop] at hreachable
          cases ending with
          | unreachable => exact absurd rfl hreachable
          | failure error => exact runSpec_of_failure hstarts hrounds hloop
          | plan plan =>
            dsimp only
            cases hstored : storage.stored with
            | ok => exact runSpec_of_stored hstarts hstarted hrounds hloop hstored
            | error storageError => exact runSpec_of_lost hstarts hmarked hloop hstored

/-! ## Without a proposal -/

/-- What a broadcast without a proposal makes of the end of its loop. -/
def LoopEnd.planned : LoopEnd → Except String PcztBroadcastPlan
  | .plan terminal => .ok terminal
  | .failure error => .error error
  | .unreachable => .error "a non-empty PCZT set always yields a terminal broadcast plan"

/-- Submitted transactions, with the answers from an index on. -/
def sendingsFrom (answers : BroadcastAnswers) (index : ℕ) (submitted : List SignedRound) :
    List Sending :=
  (submitted.zipIdx index).map fun round => (round.1.txid, answers.sent round.2)

def StoreAndBroadcastPcztsResult.outcome (result : StoreAndBroadcastPcztsResult) :
    BroadcastOutcome :=
  ⟨result.txids, result.status, result.message⟩

theorem attempt_ne_routeUnavailable (answer : SendAnswer) (error : String) :
    answer.attempt ≠ .routeUnavailable error := by
  unfold SendAnswer.attempt
  split
  · split <;> exact nofun
  · exact nofun

theorem routeUnavailable_step (index totalCount : ℕ) (error : String) :
    pcztBroadcastStep index totalCount (.routeUnavailable error) ≠ .next := by
  change (if index = 0 then .fail error else .stop _ : PcztBroadcastStep) ≠ .next
  split_ifs
  · exact nofun
  · exact nofun

theorem broadcastRounds_eq (answers : BroadcastAnswers) (totalCount index : ℕ)
    (rounds : List SignedRound) : broadcastRounds answers totalCount index rounds =
      (sendingsFrom answers index
          (broadcastLoop answers.attemptAt totalCount index rounds).1,
        (broadcastLoop answers.attemptAt totalCount index rounds).2.planned) := by
  induction rounds generalizing index with
  | nil => rfl
  | cons round rest ih =>
    rw [broadcastRounds, broadcastLoop]
    cases hroute : (if index = 0 then .ok () else answers.reopened index : Except String Unit) with
    | error error =>
      have hattempt : answers.attemptAt index = .routeUnavailable error := by
        rw [BroadcastAnswers.attemptAt, hroute]
      rw [hattempt]
      dsimp only
      cases hnext : pcztBroadcastStep index totalCount (.routeUnavailable error) with
      | next => exact absurd hnext (routeUnavailable_step index totalCount error)
      | stop plan => rfl
      | fail error => rfl
    | ok =>
      have hattempt : answers.attemptAt index = (answers.sent index).attempt := by
        rw [BroadcastAnswers.attemptAt, hroute]
      rw [hattempt]
      dsimp only
      rw [ih]
      cases hanswer : (answers.sent index).attempt with
      | routeUnavailable error => exact absurd hanswer (attempt_ne_routeUnavailable _ error)
      | _ =>
        dsimp only
        cases hnext : pcztBroadcastStep index totalCount _ with
        | next => rfl
        | stop plan => rfl
        | fail error => rfl

theorem storePlan_error (plan : PcztBroadcastPlan) (storageError : String) (world : World) :
    storePlan rounds plan (.error storageError) = ⟨joinedTxids rounds,
      if plan.broadcastedCount = rounds.length then .broadcastedStorageFailed else plan.status,
      some (storageFailure none plan storageError world)⟩ := by
  have hmessage : storageFailure none plan storageError world = _ ++ "" := rfl
  rw [hmessage, String.append_empty]
  rfl

/-- Without a proposal, the call is the broadcast of a signed operation, and leaves the wallet as it
is. -/
theorem inner_without_proposal (answers : BroadcastAnswers) (storage : StorageAnswers)
    (hrounds : rounds ≠ []) (world : World) :
    let run := storeAndBroadcastPcztsInner answers storage none rounds world
    storeAndBroadcast { answers with stored := storage.stored } rounds =
        (sendingsFrom answers 0 run.submitted,
          (run.result.getD (.error "unreachable")).map StoreAndBroadcastPcztsResult.outcome) ∧
      ∀ state ∈ run.states, state = world := by
  have hreachable := (loopSpec answers.attemptAt hrounds).reachable
  have htip : BroadcastAnswers.chainTip { answers with stored := storage.stored } =
    answers.chainTip := rfl
  have hrounds : broadcastRounds { answers with stored := storage.stored } rounds.length 0 rounds =
    broadcastRounds answers rounds.length 0 rounds := by
      rw [broadcastRounds_eq, broadcastRounds_eq]
      rfl
  unfold storeAndBroadcast storeAndBroadcastPcztsInner
  dsimp only
  rw [htip, hrounds, broadcastRounds_eq]
  cases answers.chainTip with
  | error error => exact ⟨rfl, nofun⟩
  | ok height =>
    dsimp only
    cases expiryError rounds height with
    | some error => exact ⟨rfl, nofun⟩
    | none =>
      cases hloop : broadcastLoop answers.attemptAt rounds.length 0 rounds with
      | mk submitted ending =>
        rw [hloop] at hreachable
        cases ending with
        | unreachable => exact absurd rfl hreachable
        | failure error => exact ⟨rfl, fun state hstate => List.mem_singleton.1 hstate⟩
        | plan plan =>
          cases storage.stored with
          | ok => exact ⟨rfl, fun state hstate => List.mem_singleton.1 hstate⟩
          | error storageError =>
            refine ⟨?_, fun state hstate => List.mem_singleton.1 hstate⟩
            dsimp only [LoopEnd.planned, Except.map]
            rw [storePlan_error plan storageError world]
            rfl

end Call

/-! ## The result -/

/-- For any outcomes of the attempts, the loop submits its transactions in order until one is not
accepted, and its plan tells what happened; for any answers of the network and of the storage, the
call stores what may be on the network, and keeps the inputs reserved when that fails. -/
theorem ordered_broadcast {α : Type} (attempts : ℕ → PcztBroadcastAttempt) {items : List α}
    (hitems : items ≠ []) (answers : BroadcastAnswers) (storage : StorageAnswers)
    (proposal : Proposal) {rounds : List SignedRound} (hrounds : rounds ≠ []) (world : World) :
    LoopSpec attempts items (broadcastLoop attempts items.length 0 items).1
        (broadcastLoop attempts items.length 0 items).2 ∧
      RunSpec answers storage proposal rounds world
        (storeAndBroadcastPcztsInner answers storage proposal rounds world) :=
  ⟨loopSpec attempts hitems, runSpec answers storage proposal hrounds world⟩

/-- The second of two transactions has no known result, and nothing can be stored. -/
def timeoutAnswers : BroadcastAnswers where
  prepared := .ok ()
  route := .ok ()
  latest := .ok 100
  reopened _ := .ok ()
  sent index := if index = 0 then .ok ⟨0, ""⟩ else .error "timeout"
  stored := .error "disk full"

def fullDisk : StorageAnswers := ⟨.ok (), .error "disk full", .error "disk full"⟩

def timeoutRounds : List SignedRound := [⟨[], [], none, "a", 160⟩, ⟨[], [], none, "b", 160⟩]

theorem ordered_broadcast_sample :
    LoopSpec timeoutAnswers.attemptAt timeoutRounds
        (broadcastLoop timeoutAnswers.attemptAt 2 0 timeoutRounds).1
        (broadcastLoop timeoutAnswers.attemptAt 2 0 timeoutRounds).2 ∧
      RunSpec timeoutAnswers fullDisk (some (1, "flow")) timeoutRounds Send.sampleProposed
        (storeAndBroadcastPcztsInner timeoutAnswers fullDisk (some (1, "flow")) timeoutRounds
          Send.sampleProposed) := by
  have hrounds : timeoutRounds ≠ [] := by decide
  exact ordered_broadcast timeoutAnswers.attemptAt hrounds timeoutAnswers fullDisk
    (some (1, "flow")) hrounds Send.sampleProposed

end VizorWallet.Ledger
