import VizorWallet.Library.Assoc
import VizorWallet.Library.Pointwise
import VizorWallet.Library.Transition
import VizorWallet.Migration.Store.Parts

/-!
# The rebase of the signed schedule

Before the first child is promoted, the schedule of all signed children is moved once, to the height
at which the proofs can be made.

## Main definitions

* `Shift` — every signed child moves from one origin to another one.
* `SignedRun` — a run whose signed children have message ids of their own.
* `Call` — what may happen to the signed children of a run.

## Main results

* `rebase_cases` — a rebase is a shift, or leaves the signed children alone.
* `initial_rebase_uniform` — over any sequence of calls.
-/

namespace VizorWallet.Migration.Store

variable {run run' : Run} {origin newOrigin currentScannedHeight : ℕ}

/-! ## The shift of a child -/

/-- A child that moves with the origin of the schedule, and keeps its expiry. -/
def Moved (run : Run) (origin newOrigin : ℕ) (child child' : SignedChild) : Prop :=
  ∃ blockOffset,
    scheduleBlockOffsetForPart run.schedule run.targetValues child.childIndex child.value =
      some blockOffset ∧
    child.scheduledHeight = some (origin + blockOffset) ∧
    Canonical (newOrigin + blockOffset) child.expiryHeight ∧
    child' = { child with scheduledHeight := some (newOrigin + blockOffset) }

/-- What the loop has found out about a child when it goes on. -/
def Movable (run : Run) (origin newOrigin : ℕ) (child : SignedChild × ℕ) (update : String × ℕ) :
    Prop :=
  ∃ blockOffset,
    scheduleBlockOffsetForPart run.schedule run.targetValues child.1.childIndex child.1.value =
      some blockOffset ∧
    child.2 = origin + blockOffset ∧ Canonical (newOrigin + blockOffset) child.1.expiryHeight ∧
    update = (child.1.messageId, newOrigin + blockOffset)

theorem rebaseUpdates_shift {children : List (SignedChild × ℕ)} {updates : List (String × ℕ)}
    (h : rebaseUpdates run origin newOrigin children = .ok (.shift updates)) :
    List.Forall₂ (Movable run origin newOrigin) children updates := by
  induction children generalizing updates with
  | nil =>
    obtain rfl := Rebase.shift.inj (Except.ok.inj h)
    exact .nil
  | cons entry rest ih =>
    obtain ⟨child, scheduledHeight⟩ := entry
    unfold rebaseUpdates at h
    split at h
    · cases h
    case h_2 blockOffset hoffset =>
      split_ifs at h with horigin hoverflow
      · cases h
      · cases h
      · obtain ⟨newExpiry, hexpiry, hresult⟩ := bind_eq_ok.1 h
        split_ifs at hresult with hbucket
        · cases hresult
        · obtain ⟨rebase, hrest, hshift⟩ := bind_eq_ok.1 hresult
          rw [not_not] at hbucket
          cases rebase with
          | freeze => cases hshift
          | skip => cases hshift
          | shift more =>
            obtain rfl := Rebase.shift.inj (pure_eq_ok.1 hshift)
            refine .cons ⟨blockOffset, hoffset, ?_, ?_, rfl⟩ (ih hrest)
            · dsimp only
              omega
            · exact hexpiry.trans (congrArg _ hbucket)

/-- The message ids are the keys of the table. -/
abbrev Run.MessageKeyed (run : Run) : Prop := (run.signedChildren.map SignedChild.messageId).Nodup

theorem orderedSignedChildren_perm (run : Run) :
    (orderedSignedChildren run).Perm run.signedChildren :=
  List.perm_insertionSort _ _

/-- The children in the order in which they are read, and the updates: every child is moved. -/
theorem moved_rescheduled {children : List (SignedChild × ℕ)} {updates : List (String × ℕ)}
    (hkeys : run.MessageKeyed)
    (hread : List.Forall₂ (fun child entry => child.scheduledHeight = some entry.2 ∧
      entry.1 = child) (orderedSignedChildren run) children)
    (hmovable : List.Forall₂ (Movable run origin newOrigin) children updates)
    {child : SignedChild} (hchild : child ∈ run.signedChildren) :
    Moved run origin newOrigin child (child.rescheduled updates) := by
  have hordered : child ∈ orderedSignedChildren run :=
    (orderedSignedChildren_perm run).mem_iff.2 hchild
  obtain ⟨⟨_, height⟩, hentry, hheight, rfl⟩ := exists_mem_right hread hordered
  obtain ⟨update, hupdate, blockOffset, hoffset, horigin, hcanonical, rfl⟩ :=
    exists_mem_right hmovable hentry
  have hids : updates.map Prod.fst = (orderedSignedChildren run).map SignedChild.messageId := by
    have hfirst : updates.map Prod.fst = children.map fun entry => entry.1.messageId :=
      map_eq_of_forall₂ hmovable fun entry update ⟨_, _, _, _, hsame⟩ => hsame ▸ rfl
    rw [hfirst]
    exact map_eq_of_forall₂ hread fun child entry ⟨_, hsame⟩ => congrArg _ hsame
  have hnodup : (updates.map Prod.fst).Nodup := by
    rw [hids]
    exact ((orderedSignedChildren_perm run).map _).nodup_iff.2 hkeys
  refine ⟨blockOffset, hoffset, ?_, hcanonical, ?_⟩
  · rw [hheight]
    exact congrArg some horigin
  · unfold SignedChild.rescheduled
    rw [lookup_of_mem hnodup hupdate]

/-! ## The rebase -/

/-- Every signed child of a run that covers its plan moves from the signed origin to a later one. -/
structure Shift (run run' : Run) (origin newOrigin : ℕ) : Prop where
  unmarked : run.initialScheduleRebasedOriginHeight = none
  signedOrigin : run.signedScheduleOriginHeight = some origin
  ready : ∃ proofRetryHeight ≤ newOrigin, run.proofRetryHeight = some proofRetryHeight
  later : origin < newOrigin
  covers : (run.signedChildren.map SignedChild.childIndex).toFinset =
    Finset.range (plannedPartCount run)
  children : List.Forall₂ (Moved run origin newOrigin) run.signedChildren run'.signedChildren
  frame : run' = { run with
    signedChildren := run'.signedChildren
    signedScheduleOriginHeight := some newOrigin
    initialScheduleRebasedOriginHeight := some newOrigin }

/-- The marker that a rebase sets when it leaves the children alone. -/
def Run.frozen (run : Run) : Run :=
  { run with initialScheduleRebasedOriginHeight := run.signedScheduleOriginHeight }

/-- The exits of a rebase. -/
theorem rebase_cases {applied : Bool} (hkeys : run.MessageKeyed)
    (h : rebaseInitialSignedSchedule currentScannedHeight run = .ok (run', applied)) :
    (applied = true ∧ ∃ origin, Shift run run' origin currentScannedHeight) ∨
      applied = false ∧ (run' = run ∨
        run.initialScheduleRebasedOriginHeight = none ∧ run' = run.frozen) := by
  unfold rebaseInitialSignedSchedule at h
  split at h
  case h_1 proofRetryHeight origin hmarker hretry horigin =>
    have hfrozen : { run with initialScheduleRebasedOriginHeight := some origin } = run.frozen := by
      rw [Run.frozen, horigin]
    split_ifs at h with hready
    · obtain ⟨rfl, rfl⟩ := Prod.mk.inj (Except.ok.inj h)
      exact .inr ⟨rfl, .inl rfl⟩
    · obtain ⟨children, hread, hrebase⟩ := bind_eq_ok.1 h
      split_ifs at hrebase with hpartial
      · obtain ⟨rfl, rfl⟩ := Prod.mk.inj (pure_eq_ok.1 hrebase)
        exact .inr ⟨rfl, .inl rfl⟩
      · dsimp only at hrebase
        split_ifs at hrebase with hsame
        · obtain ⟨rfl, rfl⟩ := Prod.mk.inj (pure_eq_ok.1 hrebase)
          exact .inr ⟨rfl, .inr ⟨hmarker, hfrozen⟩⟩
        · obtain ⟨rebase, hupdates, hresult⟩ := bind_eq_ok.1 hrebase
          cases rebase with
          | freeze =>
            obtain ⟨rfl, rfl⟩ := Prod.mk.inj (pure_eq_ok.1 hresult)
            exact .inr ⟨rfl, .inr ⟨hmarker, hfrozen⟩⟩
          | skip =>
            obtain ⟨rfl, rfl⟩ := Prod.mk.inj (pure_eq_ok.1 hresult)
            exact .inr ⟨rfl, .inl rfl⟩
          | shift updates =>
            obtain ⟨rfl, rfl⟩ := Prod.mk.inj (pure_eq_ok.1 hresult)
            push Not at hready hpartial
            have hmax : max origin currentScannedHeight = currentScannedHeight := by omega
            rw [hmax] at hupdates hsame ⊢
            refine .inl ⟨rfl, origin, hmarker, horigin, ⟨proofRetryHeight, hready.1, hretry⟩, ?_,
              hpartial.2, ?_, rfl⟩
            · omega
            · refine List.forall₂_map_right_iff.2 (List.forall₂_same.2 fun child hchild => ?_)
              refine moved_rescheduled hkeys ?_ (rebaseUpdates_shift hupdates) hchild
              refine (mapM_eq_ok.1 hread).imp fun child entry hentry => ?_
              obtain ⟨height, hheight, hpair⟩ := bind_eq_ok.1 hentry
              obtain rfl := pure_eq_ok.1 hpair
              exact ⟨orError_eq_ok.1 hheight, rfl⟩
  case h_2 =>
    obtain ⟨rfl, rfl⟩ := Prod.mk.inj (Except.ok.inj h)
    exact .inr ⟨rfl, .inl rfl⟩

theorem Moved.keys {child child' : SignedChild} (h : Moved run origin newOrigin child child') :
    child'.messageId = child.messageId ∧ child'.childIndex = child.childIndex := by
  obtain ⟨blockOffset, -, -, -, rfl⟩ := h
  exact ⟨rfl, rfl⟩

theorem rebase_messageKeyed {applied : Bool} (hkeys : run.MessageKeyed)
    (h : rebaseInitialSignedSchedule currentScannedHeight run = .ok (run', applied)) :
    run'.MessageKeyed := by
  obtain ⟨-, origin, hshift⟩ | ⟨-, rfl | ⟨-, rfl⟩⟩ := rebase_cases hkeys h
  · have hids : run'.signedChildren.map SignedChild.messageId =
        run.signedChildren.map SignedChild.messageId :=
      map_eq_of_forall₂ hshift.children fun _ _ hmoved => hmoved.keys.1
    rw [Run.MessageKeyed, hids]
    exact hkeys
  · exact hkeys
  · exact hkeys

/-! ## The other operations on the signed children -/

theorem insertPendingTxs_children {key : PayloadKey} {drawn : List MigrationScheduleEntry}
    {pendingTxs : List PendingMigrationTxInsert}
    (h : insertPendingTxsWithTx key drawn pendingTxs run = .ok run') :
    run'.signedChildren = run.signedChildren ∧
      run'.initialScheduleRebasedOriginHeight = run.initialScheduleRebasedOriginHeight := by
  simp only [insertPendingTxsWithTx, bind_eq_ok, pure_eq_ok] at h
  obtain ⟨-, -, -, -, -, -, rfl⟩ := h
  exact ⟨rfl, rfl⟩

/-- A promotion rebases first, and then leaves the children alone. -/
theorem promote_rebase {key : PayloadKey} {drawn : List MigrationScheduleEntry}
    {remainingChildRetryHeight : ℕ} {pendingTxs : List PendingMigrationTxInsert}
    (hpending : pendingTxs ≠ [])
    (h : promoteSignedChildPcztsToPendingTxs key drawn currentScannedHeight
      remainingChildRetryHeight pendingTxs run = .ok run') :
    ∃ rebased applied,
      rebaseInitialSignedSchedule currentScannedHeight run = .ok (rebased, applied) ∧
      run'.signedChildren = rebased.signedChildren ∧
      run'.initialScheduleRebasedOriginHeight = rebased.initialScheduleRebasedOriginHeight := by
  unfold promoteSignedChildPcztsToPendingTxs at h
  rw [if_neg (by simpa using hpending)] at h
  simp only [bind_eq_ok, pure_eq_ok] at h
  obtain ⟨-, -, ⟨rebased, applied⟩, hrebased, refreshed, -, inserted, hinserted, rfl⟩ := h
  have hframe := insertPendingTxs_children hinserted
  exact ⟨rebased, applied, hrebased, hframe⟩

theorem insertSignedChildPczts_messageKeyed {mode : SignedChildInsertMode}
    {signedChildren : List SignedMigrationPcztInsert} (hkeys : run.MessageKeyed)
    (h : insertSignedChildPczts mode signedChildren run = .ok run') :
    run'.MessageKeyed ∧
      run'.initialScheduleRebasedOriginHeight = run.initialScheduleRebasedOriginHeight := by
  simp only [insertSignedChildPczts, bind_eq_ok, pure_eq_ok] at h
  obtain ⟨⟨children, origin⟩, hchildren, rfl⟩ := h
  refine ⟨?_, rfl⟩
  have hnodup : ((children, origin).1.map SignedChild.messageId).Nodup := by
    refine foldlM_invariant (I := fun state : List SignedChild × Option ℕ =>
      (state.1.map SignedChild.messageId).Nodup) (fun state child state' _ hstate hround => ?_)
      hkeys hchildren
    simp only [insertSignedChild, bind_eq_ok, pure_eq_ok] at hround
    obtain ⟨-, -, -, -, -, -, -, -, rfl⟩ := hround
    -- `INSERT OR REPLACE` drops the row with the message id before it adds its own.
    rw [List.map_append, List.nodup_append]
    refine ⟨hstate.sublist (List.filter_sublist.map _), List.nodup_singleton _, ?_⟩
    intro messageId hkept other hother
    obtain ⟨kept, hmem, rfl⟩ := List.mem_map.1 hkept
    obtain rfl : other = child.row.messageId := by simpa using hother
    exact of_decide_eq_true (List.mem_filter.1 hmem).2
  exact hnodup

theorem replace_messageKeyed {key : PayloadKey} {replacements : List PendingMigrationTxReplacement}
    {signedChildren : List SignedMigrationPcztInsert} (hkeys : run.MessageKeyed)
    (h : replaceResignedPendingParts key replacements signedChildren run = .ok run') :
    run'.MessageKeyed ∧
      run'.initialScheduleRebasedOriginHeight = run.initialScheduleRebasedOriginHeight := by
  unfold replaceResignedPendingParts at h
  split_ifs at h
  · obtain rfl := Except.ok.inj h
    exact ⟨hkeys, rfl⟩
  · simp only [bind_eq_ok, pure_eq_ok] at h
    obtain ⟨-, -, pending, -, inserted, hinserted, rfl⟩ := h
    have hkeyed : ({ run with pending := pending } : Run).MessageKeyed := hkeys
    have hkept := insertSignedChildPczts_messageKeyed hkeyed hinserted
    exact hkept

/-! ## Calls -/

/-- A run whose signed children have message ids of their own. -/
structure SignedRun where
  run : Run
  keyed : run.MessageKeyed

inductive Call where
  | rebase (currentScannedHeight : ℕ)
  | promote (key : PayloadKey) (drawn : List MigrationScheduleEntry)
    (currentScannedHeight remainingChildRetryHeight : ℕ)
    (pendingTxs : List PendingMigrationTxInsert)
  | sign (mode : SignedChildInsertMode) (signedChildren : List SignedMigrationPcztInsert)
  | replace (key : PayloadKey) (replacements : List PendingMigrationTxReplacement)
    (signedChildren : List SignedMigrationPcztInsert)

/-- The run after a call that commits, and whether the call, or the rebase inside a promotion,
has rewritten heights. -/
def Call.perform (run : Run) : Call → Except String (Run × Bool)
  | .rebase currentScannedHeight => rebaseInitialSignedSchedule currentScannedHeight run
  | .promote key drawn currentScannedHeight remainingChildRetryHeight pendingTxs => do
    let run' ← promoteSignedChildPcztsToPendingTxs key drawn currentScannedHeight
      remainingChildRetryHeight pendingTxs run
    if pendingTxs.isEmpty then return (run', false)
    let (_, applied) ← rebaseInitialSignedSchedule currentScannedHeight run
    return (run', applied)
  | .sign mode signedChildren => do
    return (← insertSignedChildPczts mode signedChildren run, false)
  | .replace key replacements signedChildren => do
    return (← replaceResignedPendingParts key replacements signedChildren run, false)

/-- Signatures write signed children of their own. -/
def Call.Signs : Call → Prop
  | .sign .. | .replace .. => True
  | .rebase .. | .promote .. => False

/-- What a call that commits may do. -/
inductive Performed (run : Run) : Call → Run → Bool → Prop
  | shifted {call : Call} {run' : Run} {origin newOrigin : ℕ} (rebased : Run)
    (hshift : Shift run rebased origin newOrigin)
    (hchildren : run'.signedChildren = rebased.signedChildren)
    (hmarker : run'.initialScheduleRebasedOriginHeight =
      rebased.initialScheduleRebasedOriginHeight) : Performed run call run' true
  | kept {call : Call} {run' : Run} (hchildren : run'.signedChildren = run.signedChildren)
    (hmarker : run.initialScheduleRebasedOriginHeight.isSome →
      run'.initialScheduleRebasedOriginHeight = run.initialScheduleRebasedOriginHeight) :
    Performed run call run' false
  | signed {call : Call} {run' : Run} (hsigns : call.Signs) (hkeyed : run'.MessageKeyed)
    (hmarker : run'.initialScheduleRebasedOriginHeight =
      run.initialScheduleRebasedOriginHeight) : Performed run call run' false

theorem Call.perform_performed {call : Call} {applied : Bool} (hkeys : run.MessageKeyed)
    (h : call.perform run = .ok (run', applied)) : Performed run call run' applied := by
  cases call with
  | rebase currentScannedHeight =>
    obtain ⟨rfl, origin, hshift⟩ | ⟨rfl, rfl | ⟨hmarker, rfl⟩⟩ := rebase_cases hkeys h
    · exact .shifted run' hshift rfl rfl
    · exact .kept rfl fun _ => rfl
    · exact .kept rfl fun hsome => by simp [hmarker] at hsome
  | promote key drawn currentScannedHeight remainingChildRetryHeight pendingTxs =>
    obtain ⟨promoted, hpromoted, hresult⟩ := bind_eq_ok.1 h
    split_ifs at hresult with hempty
    · obtain ⟨rfl, rfl⟩ := Prod.mk.inj (pure_eq_ok.1 hresult)
      obtain rfl : run = promoted := by
        simpa [promoteSignedChildPcztsToPendingTxs, hempty] using hpromoted
      exact .kept rfl fun _ => rfl
    · obtain ⟨rebased, applied', hrebased, hchildren, hmarker⟩ :=
        promote_rebase (by simpa using hempty) hpromoted
      rw [hrebased, ok_bind] at hresult
      obtain ⟨rfl, rfl⟩ := Prod.mk.inj (pure_eq_ok.1 hresult)
      obtain ⟨rfl, origin, hshift⟩ | ⟨rfl, rfl | ⟨hunmarked, rfl⟩⟩ := rebase_cases hkeys hrebased
      · exact .shifted rebased hshift hchildren hmarker
      · exact .kept hchildren fun _ => hmarker
      · exact .kept hchildren fun hsome => by simp [hunmarked] at hsome
  | sign mode signedChildren =>
    obtain ⟨inserted, hinserted, hresult⟩ := bind_eq_ok.1 h
    obtain ⟨rfl, rfl⟩ := Prod.mk.inj (pure_eq_ok.1 hresult)
    obtain ⟨hkeyed, hmarker⟩ := insertSignedChildPczts_messageKeyed hkeys hinserted
    exact .signed trivial hkeyed hmarker
  | replace key replacements signedChildren =>
    obtain ⟨replaced, hreplaced, hresult⟩ := bind_eq_ok.1 h
    obtain ⟨rfl, rfl⟩ := Prod.mk.inj (pure_eq_ok.1 hresult)
    obtain ⟨hkeyed, hmarker⟩ := replace_messageKeyed hkeys hreplaced
    exact .signed trivial hkeyed hmarker

theorem Performed.messageKeyed {call : Call} {applied : Bool} (hkeys : run.MessageKeyed)
    (h : Performed run call run' applied) : run'.MessageKeyed := by
  cases h with
  | shifted rebased hshift hchildren hmarker =>
    have hids : rebased.signedChildren.map SignedChild.messageId =
        run.signedChildren.map SignedChild.messageId :=
      map_eq_of_forall₂ hshift.children fun _ _ hmoved => hmoved.keys.1
    rw [Run.MessageKeyed, hchildren, hids]
    exact hkeys
  | kept hchildren hmarker =>
    rw [Run.MessageKeyed, hchildren]
    exact hkeys
  | signed hsigns hkeyed hmarker => exact hkeyed

/-- What a call returns. A call that fails rolls its transaction back. -/
def Call.returned (state : SignedRun × Call) : Except String Bool :=
  (state.2.perform state.1.run).map Prod.snd

def Call.after (state : SignedRun) (call : Call) : SignedRun :=
  match h : call.perform state.run with
  | .ok (run', _) => ⟨run', (Call.perform_performed state.keyed h).messageKeyed state.keyed⟩
  | .error _ => state

/-- The marker of the one rebase. -/
def SignedRun.Rebased (state : SignedRun) : Prop :=
  state.run.initialScheduleRebasedOriginHeight.isSome

/-- A call commits what `Performed` says, or leaves the state as it is. -/
theorem Call.after_cases (state : SignedRun) (call : Call) :
    (∃ applied, Call.returned (state, call) = .ok applied ∧
      Performed state.run call (Call.after state call).run applied) ∨
    (∃ error, Call.returned (state, call) = .error error) ∧ Call.after state call = state := by
  unfold Call.after Call.returned
  split
  case h_1 run' applied h =>
    exact .inl ⟨applied, congrArg (Except.map Prod.snd) h, Call.perform_performed state.keyed h⟩
  case h_2 error h => exact .inr ⟨⟨error, congrArg (Except.map Prod.snd) h⟩, rfl⟩

/-- A call that returns `true` closes the run to further rebases. -/
def Call.fires (state : SignedRun × Call) : Bool :=
  match Call.returned state with
  | .ok applied => applied
  | .error _ => false

theorem Call.fires_of_returned {state : SignedRun × Call} {applied : Bool}
    (h : Call.returned state = .ok applied) : Call.fires state = applied := by
  rw [Call.fires, h]

theorem Call.fires_of_error {state : SignedRun × Call} {error : String}
    (h : Call.returned state = .error error) : Call.fires state = false := by
  rw [Call.fires, h]

theorem SignedRun.Rebased.after {state : SignedRun} (h : state.Rebased) (call : Call) :
    (Call.after state call).Rebased := by
  obtain ⟨applied, -, hperformed⟩ | ⟨-, hsame⟩ := Call.after_cases state call
  · unfold SignedRun.Rebased at h ⊢
    cases hperformed with
    | shifted rebased hshift => simp [hshift.unmarked] at h
    | kept hchildren hmarker => rwa [hmarker h]
    | signed hsigns hkeyed hmarker => rwa [hmarker]
  · rwa [hsame]

theorem SignedRun.Rebased.blocks {state : SignedRun} (h : state.Rebased) (call : Call) :
    Call.fires (state, call) = false := by
  obtain ⟨applied, hreturned, hperformed⟩ | ⟨⟨error, herror⟩, -⟩ := Call.after_cases state call
  · rw [Call.fires_of_returned hreturned]
    cases hperformed with
    | shifted rebased hshift => simp [SignedRun.Rebased, hshift.unmarked] at h
    | kept => rfl
    | signed => rfl
  · exact Call.fires_of_error herror

theorem Call.rebased_of_fires {state : SignedRun} {call : Call} (h : Call.fires (state, call)) :
    (Call.after state call).Rebased := by
  obtain ⟨applied, hreturned, hperformed⟩ | ⟨⟨error, herror⟩, -⟩ := Call.after_cases state call
  · rw [Call.fires_of_returned hreturned] at h
    unfold SignedRun.Rebased
    cases hperformed with
    | shifted rebased hshift hchildren hmarker => rw [hmarker, hshift.frame]; rfl
    | kept => cases h
    | signed => cases h
  · rw [Call.fires_of_error herror] at h
    cases h

/-- Over any sequence of promotions, signatures and rebases: what returns `true` is one uniform
shift, what returns `false` or fails leaves the heights alone, and one call at most shifts. -/
theorem initial_rebase_uniform (state : SignedRun) (calls : List Call) :
    (∀ entry ∈ history Call.after state calls,
      let run := entry.1.run
      let run' := (Call.after entry.1 entry.2).run
      (Call.returned entry = .ok true →
        ∃ origin newOrigin proofRetryHeight,
          run.signedScheduleOriginHeight = some origin ∧ origin < newOrigin ∧
          run.proofRetryHeight = some proofRetryHeight ∧ proofRetryHeight ≤ newOrigin ∧
          (run.signedChildren.map SignedChild.childIndex).toFinset =
            Finset.range (plannedPartCount run) ∧
          List.Forall₂ (Moved run origin newOrigin) run.signedChildren run'.signedChildren) ∧
      (Call.returned entry ≠ .ok true → ¬ entry.2.Signs →
        run'.signedChildren = run.signedChildren)) ∧
    (history Call.after state calls).countP Call.fires ≤ 1 := by
  refine ⟨fun entry _ => ?_, ?_⟩
  · dsimp only
    obtain ⟨applied, hreturned, hperformed⟩ | ⟨⟨error, herror⟩, hsame⟩ :=
      Call.after_cases entry.1 entry.2
    · rw [hreturned]
      cases hperformed with
      | @shifted origin newOrigin rebased hshift hchildren hmarker =>
        obtain ⟨proofRetryHeight, hle, hready⟩ := hshift.ready
        refine ⟨fun _ => ⟨origin, newOrigin, proofRetryHeight, hshift.signedOrigin, hshift.later,
          hready, hle, hshift.covers, hchildren ▸ hshift.children⟩, fun hfalse => ?_⟩
        exact absurd rfl hfalse
      | kept hchildren => exact ⟨nofun, fun _ _ => hchildren⟩
      | signed hsigns => exact ⟨nofun, fun _ hrebase => absurd hsigns hrebase⟩
    · rw [herror, hsame]
      exact ⟨nofun, fun _ _ => rfl⟩
  · exact @countP_history_le_one _ _ Call.after SignedRun.Rebased Call.fires
      (fun state call h => h.after call) (fun state call h => h.blocks call)
      (fun state call h => Call.rebased_of_fires h) state calls

end VizorWallet.Migration.Store
