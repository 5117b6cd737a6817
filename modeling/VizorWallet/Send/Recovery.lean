import VizorWallet.Send.Safety

/-!
# Reservations survive crashes

After any operations and any crashes, the rows of each owner agree, every lock of a send owner can
be found in the table unless it was kept on purpose, and cleanup leaves the locks of signed and
submitted proposals alone.

## Main definitions

* `KeepsProtected` — signed, submitted and retained owners keep their rows and outputs.

## Main results

* `SendOperation.keeps` — every commit of a cleanup keeps protected owners.
* `reservations_sound` — the invariants over all runs.
-/

namespace VizorWallet.Send

variable {owner : LockOwner} {world : World}

/-! ## Cleanup -/

/-- The owner has signed or submitted, or keeps its locks until they expire. -/
def Protected (rows : List LockRow) (owner : LockOwner) : Prop :=
  ∃ row ∈ rows, row.owner = owner ∧ (row.metadata.isDurable ∨ row.metadata.retainUntilExpiry)

/-- An owner keeps its rows and its outputs. -/
structure KeepsOwner (owner : LockOwner) (world world' : World) : Prop where
  rows : ∀ row ∈ world.rows, row.owner = owner → row ∈ world'.rows
  outputs : ∀ output, world.outputLocks output = some owner →
    world'.outputLocks output = some owner

def KeepsProtected (world world' : World) : Prop :=
  ∀ owner, Protected world.rows owner → KeepsOwner owner world world'

theorem KeepsOwner.refl (owner : LockOwner) (world : World) : KeepsOwner owner world world :=
  ⟨fun _ hrow _ => hrow, fun _ => id⟩

theorem KeepsOwner.trans {world' world'' : World} (h : KeepsOwner owner world world')
    (h' : KeepsOwner owner world' world'') : KeepsOwner owner world world'' where
  rows row hrow howner := h'.rows row (h.rows row hrow howner) howner
  outputs output hheld := h'.outputs output (h.outputs output hheld)

theorem Protected.keeps {world' : World} (h : Protected world.rows owner)
    (hkeeps : KeepsOwner owner world world') : Protected world'.rows owner := by
  obtain ⟨row, hrow, howner, hmetadata⟩ := h
  exact ⟨row, hkeeps.rows row hrow howner, howner, hmetadata⟩

theorem KeepsProtected.refl (world : World) : KeepsProtected world world :=
  fun owner _ => .refl owner world

theorem KeepsProtected.trans {world' world'' : World} (h : KeepsProtected world world')
    (h' : KeepsProtected world' world'') : KeepsProtected world world'' :=
  fun owner hprotected =>
    (h owner hprotected).trans (h' owner (hprotected.keeps (h owner hprotected)))

theorem keepsProtected_of_released {world' : World} {releases : List (LockOwner × OutputRef)}
    (hreleased : Released world.outputLocks world'.outputLocks releases)
    (hreleases : ∀ release ∈ releases, ¬ Protected world.rows release.1)
    (hrows : ∀ row ∈ world.rows, Protected world.rows row.owner → row ∈ world'.rows) :
    KeepsProtected world world' := by
  refine fun owner hprotected => ⟨fun row hrow howner => ?_, fun output hheld => ?_⟩
  · exact hrows row hrow (howner ▸ hprotected)
  · obtain hsame | ⟨-, other, hother, hmem⟩ := hreleased output
    · exact hsame.trans hheld
    · obtain rfl := Option.some.inj (hother.symm.trans hheld)
      exact absurd hprotected (hreleases _ hmem)

/-- A capability whose rows are not durable is not protected. -/
theorem World.Sound.not_protected (h : world.Sound) {lock : StoredProposalLock}
    (hlock : lock ∈ world.store.locks) (hdurable : ¬ isDurable lock.owner world.rows) :
    ¬ Protected world.rows lock.owner := by
  rintro ⟨row, hrow, howner, hmetadata⟩
  have hnot : ¬ row.metadata.isDurable := fun hrowDurable =>
    hdurable (List.any_eq_true.2 ⟨row, hrow, decide_eq_true ⟨howner, hrowDurable⟩⟩)
  obtain hrowDurable | hretain := hmetadata
  · exact hnot hrowDurable
  · obtain hrowDurable | hlegacy := (h.disk.coherent row hrow).durable hretain
    · exact hnot hrowDurable
    · exact (h.memory.held lock hlock row hrow howner).2.2 hlegacy

theorem unlock_keeps {proposalId : ℕ} {sendFlowId : String} {state : World} (h : world.Sound)
    (hstate : state ∈ unlockStoredProposalLocked proposalId sendFlowId false world) :
    KeepsProtected world state := by
  unfold unlockStoredProposalLocked at hstate
  split at hstate
  · cases hstate
  · rename_i lock hfind
    dsimp only at hstate
    split_ifs at hstate with hflow hdurable
    · cases hstate
    · cases hstate
    · have hunprotected := h.not_protected (mem_of_findLock hfind).1 (by simpa using hdurable)
      have hreleases : ∀ release ∈ lock.inputs.map fun output => (lock.owner, output),
          ¬ Protected world.rows release.1 := by
        intro release hrelease
        obtain ⟨output, -, rfl⟩ := List.mem_map.1 hrelease
        exact hunprotected
      have hremoved (row : LockRow) (hrow : row ∈ world.rows)
          (hprotected : Protected world.rows row.owner) : row ∈ remove lock.owner world.rows :=
        List.mem_filter.2 ⟨hrow, decide_eq_true fun hsame => hunprotected (hsame ▸ hprotected)⟩
      obtain hunlocking | hremoving := List.mem_append.1 hstate
      · obtain ⟨outputLocks, houtputLocks, rfl⟩ := List.mem_map.1 hunlocking
        exact keepsProtected_of_released (released_of_mem_unlockEach houtputLocks) hreleases
          fun row hrow _ => hrow
      · simp only [List.mem_cons, List.not_mem_nil, or_false] at hremoving
        obtain rfl | rfl := hremoving <;>
          exact keepsProtected_of_released (released_unlockAll _ _) hreleases hremoved

theorem finishInner_keeps {proposalId : ℕ} {sendFlowId : String} {state : World} (h : world.Sound)
    (hstate : state ∈ finishStoredProposalInner proposalId sendFlowId true false world) :
    KeepsProtected world state := by
  unfold finishStoredProposalInner at hstate
  split at hstate
  · cases hstate
  · split_ifs at hstate with hflow hreleases
    · cases hstate
    · exact unlock_keeps h hstate
    · exact absurd rfl hreleases

theorem discard_keeps {proposalId : ℕ} {sendFlowId : String} {state : World} (h : world.Sound)
    (hstate : state ∈ discardStoredProposal proposalId sendFlowId world) :
    KeepsProtected world state := by
  unfold discardStoredProposal at hstate
  split at hstate
  · dsimp only at hstate
    split_ifs at hstate
    · have hdiscarded : KeepsProtected world (world.forgetProposal proposalId) :=
        fun _ _ => ⟨fun _ hrow _ => hrow, fun _ => id⟩
      obtain rfl | hfinish := List.mem_cons.1 hstate
      · exact hdiscarded
      · exact hdiscarded.trans (finishInner_keeps (h.forgetProposal proposalId) hfinish)
    · cases hstate
  · exact finishInner_keeps h hstate

/-- What each state of an operation keeps, its last state keeps. -/
theorem keeps_last {states : List World} (h : ∀ state ∈ states, KeepsProtected world state) :
    KeepsProtected world (world.last states) := by
  unfold World.last
  cases states using List.reverseRecOn with
  | nil => exact .refl world
  | append_singleton rest state =>
    rw [List.getLastD_concat]
    exact h state (List.mem_append_right _ List.mem_cons_self)

theorem shutdownCleanup_keeps {reached : List ℕ} {state : World} (h : world.Sound)
    (hstate : state ∈ shutdownCleanup reached world) : KeepsProtected world state := by
  induction reached generalizing world with
  | nil => cases hstate
  | cons proposalId rest ih =>
    rw [shutdownCleanup] at hstate
    have hfirst := @cleanupOne_safe world proposalId h
    have hkeeps : ∀ state ∈ cleanupOne proposalId world, KeepsProtected world state := by
      intro state hstate
      unfold cleanupOne at hstate
      split at hstate
      · cases hstate
      · exact unlock_keeps h hstate
    obtain hunlocking | hlater := List.mem_append.1 hstate
    · exact hkeeps state hunlocking
    · exact (keeps_last hkeeps).trans (ih hfirst.last hlater)

theorem shutdown_keeps {reached : List ℕ} {state : World} (h : world.Sound)
    (hstate : state ∈ shutdownSigningReservations reached world) : KeepsProtected world state := by
  have hclosed : KeepsProtected world { world with shuttingDown := true } :=
    fun _ _ => ⟨fun _ hrow _ => hrow, fun _ => id⟩
  obtain rfl | hcleanup := List.mem_cons.1 hstate
  · exact hclosed
  · exact hclosed.trans (shutdownCleanup_keeps ⟨h.disk, h.memory⟩ hcleanup)

/-- A recovery that releases no protected owner keeps them. -/
theorem recoverPrevious_keeps {targetHeight : Option ℕ} {state : World} (h : world.Sound)
    (hheld : ∀ row ∈ world.rows, Protected world.rows row.owner →
      row.metadata.isOrphan world.session → ¬ shouldReleaseAfterRestart
        row.metadata.retainUntilExpiry targetHeight row.metadata.expiryHeight)
    (hstate : state ∈ recoverPreviousProcess targetHeight world) : KeepsProtected world state := by
  unfold recoverPreviousProcess at hstate
  cases hread : readPreviousSessionLocks world.session world.rows with
  | error =>
    rw [hread] at hstate
    cases hstate
  | ok locks =>
    rw [hread] at hstate
    have hnot {owner : LockOwner} (hprotected : Protected world.rows owner) :
        owner ∉ (releasedAt targetHeight locks).map SendLock.owner := by
      intro hreleased
      obtain ⟨row, hrow, rfl, -⟩ := id hprotected
      obtain ⟨horphan, hreleases, -⟩ := rows_of_released h.disk.agree hread hreleased row hrow rfl
      exact hheld row hrow hprotected horphan hreleases
    have hreleases : ∀ release ∈ recoveryReleases targetHeight locks,
        ¬ Protected world.rows release.1 := by
      intro release hrelease hprotected
      obtain ⟨lock, hlock, hmem⟩ := List.mem_flatMap.1 hrelease
      obtain ⟨output, -, rfl⟩ := List.mem_map.1 hmem
      exact hnot hprotected (List.mem_map_of_mem hlock)
    obtain hunlocking | hremoving := List.mem_append.1 hstate
    · obtain ⟨outputLocks, houtputLocks, rfl⟩ := List.mem_map.1 hunlocking
      exact keepsProtected_of_released (released_of_mem_unlockEach houtputLocks) hreleases
        fun row hrow _ => hrow
    · rw [List.mem_singleton.1 hremoving]
      refine keepsProtected_of_released (released_unlockAll _ _) hreleases
        fun row hrow hprotected => List.mem_filter.2 ⟨hrow, ?_⟩
      exact decide_eq_true (hnot hprotected)

theorem recover_keeps {state : World} (h : world.Sound)
    (hstate : state ∈ recoverBeforeBalance world) : KeepsProtected world state := by
  refine @recoverPrevious_keeps world none state h (fun row hrow hprotected _ => ?_) hstate
  obtain ⟨other, hother, howner, hmetadata⟩ := hprotected
  have hretain : row.metadata.retainUntilExpiry := by
    rw [h.disk.agree row hrow other hother howner.symm]
    exact hmetadata.elim (h.disk.coherent other hother).retained id
  simp [shouldReleaseAfterRestart, hretain]

/-! ## Runs -/

/-- The operations that clean up after a proposal or a process. -/
def SendOperation.isCleanup : SendOperation → Bool
  | .discard _ _ | .shutdown _ | .recoverBeforeBalance => true
  | _ => false

theorem SendOperation.safe (h : world.Sound) {operation : SendOperation}
    (hgenuine : operation.Genuine world) : Safe world (operation.states world) := by
  cases operation with
  | proposeSend => exact propose_safe h hgenuine.1 hgenuine.2
  | beginPczt => exact begin_safe h
  | finishPczt => exact finishPczt_safe h
  | checkpointBatch => exact checkpoint_safe h hgenuine
  | markBroadcastStarted => exact markStarted_safe h
  | discard => exact discard_safe h
  | finish => exact finishInner_safe h
  | retain => exact retain_safe h
  | shutdown => exact shutdown_safe h
  | applyBroadcastOutcome => exact applyOutcome_safe h
  | recordBroadcastFailure => exact recordFailure_safe h
  | recoverBeforeBalance => exact recover_safe h

theorem SendOperation.keeps (h : world.Sound) {operation : SendOperation}
    (hcleanup : operation.isCleanup) {state : World} (hstate : state ∈ operation.states world) :
    KeepsProtected world state := by
  cases operation with
  | discard => exact discard_keeps h hstate
  | shutdown => exact shutdown_keeps h hstate
  | recoverBeforeBalance => exact recover_keeps h hstate
  | _ => cases hcleanup

theorem last_eq_or_mem (states : List World) : world.last states = world ∨
    world.last states ∈ states := by
  unfold World.last
  cases states using List.reverseRecOn with
  | nil => exact .inl rfl
  | append_singleton rest state =>
    rw [List.getLastD_concat]
    exact .inr (List.mem_append_right _ List.mem_cons_self)

/-- A new process finds a sound disk. -/
theorem DiskSound.restart (h : world.DiskSound) (session : SessionId) :
    (world.restart session).Sound where
  disk := h
  memory :=
    { ids := List.nodup_nil
      owners := List.nodup_nil
      pendingNodup := List.nodup_nil
      below := fun _ hid => by cases hid with | inl hmem | inr hmem => cases hmem
      locksDrawn := nofun
      notKept := nofun
      held := nofun
      live := nofun
      proposalInputs := nofun
      creatingInputs := nofun }

theorem World.Sound.step (h : world.Sound) {event : SendEvent} (hgenuine : event.Genuine world) :
    (sendStep world event).Sound := by
  cases event with
  | complete operation => exact (operation.safe h hgenuine).last
  | crash operation commits session =>
    have hsafe := operation.safe h hgenuine
    refine DiskSound.restart ?_ session
    obtain hnone | hmem := last_eq_or_mem ((operation.states world).take commits)
    · exact hnone ▸ h.disk
    · exact hsafe.disk _ (List.mem_of_mem_take hmem)
  | others outputLocks =>
    refine ⟨{ h.disk with covered := fun output owner hheld hdrawn => ?_ }, h.memory⟩
    exact h.disk.covered output owner (hgenuine output owner hheld hdrawn) hdrawn

/-- The first process after the table got its columns: all rows are from before, those of an owner
agree, and they tell each output that a proposal has locked. -/
structure World.Upgraded (world : World) : Prop where
  agree : Agree world.rows
  legacy : ∀ row ∈ world.rows, row.metadata.phase = .legacy ∧ row.metadata.operationId = none
  covered : ∀ output owner, world.outputLocks output = some owner → owner ∈ world.drawn →
    ∃ row ∈ world.rows, row.owner = owner ∧ row.output = output
  rowsDrawn : ∀ row ∈ world.rows, row.owner ∈ world.drawn
  fresh : world.restart world.session = world
  unbound : world.bound = []
  unkept : world.kept = []

theorem World.Upgraded.sound (h : world.Upgraded) : world.Sound := by
  rw [← h.fresh]
  refine DiskSound.restart ⟨h.agree, fun row hrow => ?_, fun output owner hheld hdrawn =>
    .inr (h.covered output owner hheld hdrawn), fun row hrow hoperation => ?_, h.rowsDrawn,
    h.unbound ▸ List.nil_subset _, h.unkept ▸ List.nil_subset _⟩ world.session
  · obtain ⟨hphase, hnone⟩ := h.legacy row hrow
    refine ⟨fun hdurable => ?_, fun _ => .inr hphase, fun hsome => ?_⟩
    · simp [LockMetadata.isDurable, hphase] at hdurable
    · rw [hnone] at hsome
      cases hsome
  · obtain ⟨hphase, hnone⟩ := h.legacy row hrow
    obtain hsome | hrelease := hoperation
    · rw [hnone] at hsome
      cases hsome
    · cases hphase.symm.trans hrelease

/-- After any operations and crashes, the rows of each owner agree and can be read in any session,
an output that a proposal has locked has its row unless the proposal was finished without a release,
and no commit of a cleanup releases an output of a protected owner. -/
theorem reservations_sound {initial : World} (hinitial : initial.Upgraded)
    (h : (reservations initial).Reaches SendEvent.Genuine world) :
    Agree world.rows ∧
    (∀ session, ∃ locks, readPreviousSessionLocks session world.rows = .ok locks) ∧
    (∀ output owner, world.outputLocks output = some owner → owner ∈ world.drawn →
      owner ∈ world.kept ∨ ∃ row ∈ world.rows, row.owner = owner ∧ row.output = output) ∧
    ∀ operation : SendOperation, operation.isCleanup → ∀ state ∈ operation.states world,
      KeepsProtected world state := by
  have hsound : world.Sound := h.invariant hinitial.sound
    fun world event world' hworld hgenuine hstep => Option.some.inj hstep ▸ hworld.step hgenuine
  exact ⟨hsound.disk.agree, hsound.disk.agree.readPreviousSessionLocks, hsound.disk.covered,
    fun _ hcleanup _ hstate => SendOperation.keeps hsound hcleanup hstate⟩

def sampleOwner (byte : UInt8) : LockOwner := ⟨List.replicate 32 byte, rfl⟩

def sampleSession (byte : UInt8) : SessionId := ⟨List.replicate 16 byte, rfl⟩

def sampleOutput (outputIndex : ℕ) : OutputRef := ⟨"aa", .orchard, outputIndex⟩

/-- A wallet with a retained lock from before. -/
def sampleWorld : World where
  outputLocks := lockOutputs [sampleOutput 0] (sampleOwner 0) fun _ => none
  outbox := ⟨[], [⟨sampleOwner 0, sampleOutput 0, sampleSession 0, 120, true, .legacy, none⟩]⟩
  session := sampleSession 1
  shuttingDown := false
  store := ⟨[], [], 1⟩
  creating := []
  drawn := [sampleOwner 0]
  bound := []
  kept := []

/-- A proposal whose PCZT is made. -/
def sampleProposed : World := [
    .complete (.proposeSend "flow" (sampleOwner 1) [sampleOutput 1] 140 false),
    .complete (.beginPczt 1 "flow" true),
    .complete (.finishPczt 1 160 false true)].foldl sendStep sampleWorld

/-- It is signed, and the process ends in its cleanup. -/
def sampleCrashed : World := [
    .complete (.checkpointBatch (.ok ()) "send" "account" .send none
      [⟨[1], [2], some (sampleOwner 1), "bb", 160⟩]),
    .crash (.shutdown [1]) 1 (sampleSession 2)].foldl sendStep sampleProposed

theorem sampleWorld_held {output : OutputRef} {owner : LockOwner}
    (h : sampleWorld.outputLocks output = some owner) :
    output = sampleOutput 0 ∧ owner = sampleOwner 0 := by
  change (if output ∈ [sampleOutput 0] then some (sampleOwner 0) else none) = some owner at h
  split_ifs at h with hmem
  exact ⟨List.mem_singleton.1 hmem, (Option.some.inj h).symm⟩

theorem sampleWorld_upgraded : sampleWorld.Upgraded where
  agree row hrow row' hrow' _ := by rw [List.mem_singleton.1 hrow, List.mem_singleton.1 hrow']
  legacy := List.forall_mem_singleton.2 ⟨rfl, rfl⟩
  covered output owner hheld _ := by
    obtain ⟨rfl, rfl⟩ := sampleWorld_held hheld
    exact ⟨_, List.mem_cons_self, rfl, rfl⟩
  rowsDrawn := List.forall_mem_singleton.2 List.mem_cons_self
  fresh := rfl
  unbound := rfl
  unkept := rfl

/-- The next process releases neither lock. -/
theorem reservations_sound_sample :
    sampleCrashed.rows.map (fun row => (row.owner, row.metadata.phase)) =
      [(sampleOwner 0, .legacy), (sampleOwner 1, .signed)] ∧
    Agree sampleCrashed.rows ∧
    ∀ state ∈ recoverBeforeBalance sampleCrashed, KeepsProtected sampleCrashed state := by
  have hfree (output : OutputRef) : sampleWorld.outputLocks output ≠ some (sampleOwner 1) :=
    fun hheld => absurd (sampleWorld_held hheld).2 (by decide)
  have hinit : (reservations sampleWorld).Reaches SendEvent.Genuine sampleWorld := .init
  have hproposed : (reservations sampleWorld).Reaches SendEvent.Genuine sampleProposed :=
    ((hinit.step
      (e := SendEvent.complete (.proposeSend "flow" (sampleOwner 1) [sampleOutput 1] 140 false))
      ⟨by decide, hfree⟩ rfl).step (e := SendEvent.complete (.beginPczt 1 "flow" true)) trivial
        rfl).step (e := SendEvent.complete (.finishPczt 1 160 false true)) trivial rfl
  have hcrashed : (reservations sampleWorld).Reaches SendEvent.Genuine sampleCrashed := by
    have hbound : ∀ owner ∈ [sampleOwner 1], owner ∈ sampleProposed.bound := by decide +kernel
    exact (hproposed.step (e := SendEvent.complete (.checkpointBatch (.ok ()) "send" "account"
      .send none [⟨[1], [2], some (sampleOwner 1), "bb", 160⟩])) hbound rfl).step
        (e := SendEvent.crash (.shutdown [1]) 1 (sampleSession 2)) trivial rfl
  obtain ⟨hagree, -, -, hkeeps⟩ := reservations_sound sampleWorld_upgraded hcrashed
  exact ⟨by decide +kernel, hagree, hkeeps .recoverBeforeBalance rfl⟩

end VizorWallet.Send
