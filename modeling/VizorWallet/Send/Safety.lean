import VizorWallet.Send.Invariants

/-!
# Operations on reservations are safe

Each operation keeps the disk sound at each of its commits, so that the process may end there.

## Main definitions

* `Safe` — an operation keeps the disk sound at each commit, and everything in the end.

## Main results

* `propose_safe`, `begin_safe`, `finishPczt_safe`, `checkpoint_safe`, `unlock_safe`,
  `shutdown_safe`, `recover_safe`
-/

namespace VizorWallet.Send

open Ledger (Outbox BroadcastOutcome OperationKind SignedRound)

variable {outputLocks : OutputLocks} {rows : List LockRow} {session : SessionId}
  {store : ProposalStore} {creating : List (StoredProposal × LockOwner)}
  {drawn bound kept : List LockOwner} {owner : LockOwner} {world : World}

/-! ## Operations -/

/-- An operation keeps the disk sound at each commit, and everything in the end. -/
structure Safe (world : World) (states : List World) : Prop where
  disk : ∀ state ∈ states, state.DiskSound
  last : (world.last states).Sound

theorem last_append (first second : List World) :
    world.last (first ++ second) = (world.last first).last second := by
  unfold World.last
  cases second with
  | nil => rw [List.append_nil, List.getLastD_nil]
  | cons state rest => simp [List.getLastD_eq_getLast?]

theorem Safe.nil (h : world.Sound) : Safe world [] := ⟨nofun, h⟩

theorem Safe.single {state : World} (h : state.Sound) : Safe world [state] :=
  ⟨List.forall_mem_singleton.2 h.disk, h⟩

theorem Safe.append {first second : List World} (hfirst : ∀ state ∈ first, state.DiskSound)
    (hsecond : Safe (world.last first) second) : Safe world (first ++ second) where
  disk state hstate := (List.mem_append.1 hstate).elim (hfirst state) (hsecond.disk state)
  last := by
    rw [last_append]
    exact hsecond.last

theorem Safe.cons {state : World} {rest : List World} (hstate : state.DiskSound)
    (hrest : Safe state rest) : Safe world (state :: rest) :=
  @Safe.append world [state] rest (List.forall_mem_singleton.2 hstate) hrest

/-- The owner of a capability holds its inputs only. -/
theorem World.Sound.held {lock : StoredProposalLock} (h : world.Sound)
    (hlock : lock ∈ world.store.locks) {output : OutputRef}
    (hheld : world.outputLocks output = some lock.owner) : output ∈ lock.inputs := by
  obtain hkept | ⟨row, hrow, howner, rfl⟩ :=
    h.disk.covered output lock.owner hheld (h.memory.locksDrawn lock hlock)
  · exact absurd hkept (h.memory.notKept lock hlock)
  · exact (h.memory.held lock hlock row hrow howner).1

theorem unlock_safe {proposalId : ℕ} {sendFlowId : String} {allowDurable : Bool}
    (h : world.Sound) :
    Safe world (unlockStoredProposalLocked proposalId sendFlowId allowDurable world) := by
  unfold unlockStoredProposalLocked
  split
  · exact .nil h
  · rename_i lock hfind
    have hlock := (mem_of_findLock hfind).1
    dsimp only
    split_ifs
    · exact .nil h
    · exact .nil h
    · set releases := lock.inputs.map fun output => (lock.owner, output) with hreleases
      have hfree (output : OutputRef) :
          unlockAll world.outputLocks releases output ≠ some lock.owner := by
        intro hheld
        have hbefore : world.outputLocks output = some lock.owner := by
          obtain hsame | ⟨hnone, -⟩ := released_unlockAll world.outputLocks releases output
          · exact hsame ▸ hheld
          · cases hnone.symm.trans hheld
        exact unlockAll_ne (List.mem_map_of_mem (h.held hlock hbefore)) hheld
      have hremoved := (h.disk.released (released_unlockAll _ releases)).remove (.inr hfree)
      refine Safe.append (fun state hstate => ?_) (.cons hremoved (.single ⟨hremoved, ?_⟩))
      · obtain ⟨outputLocks, houtputLocks, rfl⟩ := List.mem_map.1 hstate
        exact h.disk.released (released_of_mem_unlockEach houtputLocks)
      · exact h.memory.forget hfind

theorem finishInner_safe {proposalId : ℕ} {sendFlowId : String} {releaseInputs allowDurable : Bool}
    (h : world.Sound) : Safe world
      (finishStoredProposalInner proposalId sendFlowId releaseInputs allowDurable world) := by
  unfold finishStoredProposalInner
  split
  · exact .nil h
  · rename_i lock hfind
    have hlock := (mem_of_findLock hfind).1
    have hdrawn := h.memory.locksDrawn lock hlock
    dsimp only
    split_ifs
    · exact .nil h
    · exact unlock_safe h
    · refine .cons h.disk (.single ⟨(h.disk.keep hdrawn).remove (.inl List.mem_cons_self), ?_⟩)
      have hforget := h.memory.forget hfind
      refine { hforget with notKept := fun other hother hkept => ?_ }
      obtain hsame | hkept := List.mem_cons.1 hkept
      · obtain ⟨hmem, hne⟩ := List.mem_filter.1 hother
        obtain rfl := h.memory.eq_of_owner hmem hlock hsame
        exact of_decide_eq_true hne (mem_of_findLock hfind).2
      · exact hforget.notKept other hother hkept

theorem World.Sound.forgetProposal (h : world.Sound) (proposalId : ℕ) :
    (world.forgetProposal proposalId).Sound :=
  ⟨h.disk, h.memory.forgetProposal proposalId⟩

theorem discard_safe {proposalId : ℕ} {sendFlowId : String} (h : world.Sound) :
    Safe world (discardStoredProposal proposalId sendFlowId world) := by
  unfold discardStoredProposal
  split
  · dsimp only
    split_ifs
    · exact .cons h.disk (finishInner_safe (h.forgetProposal proposalId))
    · exact .nil h
  · exact finishInner_safe h

/-- The rows after an owner was marked. -/
theorem markRetain_ok {rows' : List LockRow} (h : markRetainUntilExpiry owner rows = .ok rows') :
    rows' = (updateRows (fun other _ => other = owner) (fun metadata => { metadata with
      retainUntilExpiry := true
      phase := if metadata.phase = .signed then .signed else .broadcast }) rows).1 := by
  simp only [markRetainUntilExpiry, bind_eq_ok, pure_eq_ok] at h
  obtain ⟨-, -, rfl⟩ := h
  rfl

/-- An update of rows that keeps what is known about them. -/
theorem World.Sound.updateRows (h : world.Sound) (condition : LockOwner → LockMetadata → Bool)
    (update : LockMetadata → LockMetadata)
    (hcoherent : ∀ metadata : LockMetadata, metadata.Coherent → (update metadata).Coherent)
    (hoperations : ∀ row ∈ world.rows, condition row.owner row.metadata →
      (update row.metadata).operationId.isSome ∨ (update row.metadata).phase = .release →
        row.owner ∈ world.bound)
    (hsession : ∀ metadata, (update metadata).sessionId = metadata.sessionId)
    (hphase : ∀ metadata : LockMetadata, metadata.phase ≠ .legacy →
      (update metadata).phase ≠ .legacy) :
    (world.withRows (updateRows condition update world.rows).1).Sound :=
  ⟨h.disk.update hcoherent hoperations, h.memory.update hsession hphase⟩

theorem World.Sound.mark {rows' : List LockRow} (h : world.Sound)
    (hmark : markRetainUntilExpiry owner world.rows = .ok rows') :
    (world.withRows rows').Sound := by
  obtain rfl := markRetain_ok hmark
  refine h.updateRows _ _ (fun metadata _ => ?_) (fun row hrow _ hoperation => ?_) (fun _ => rfl)
    fun metadata _ => ?_
  · have hdurable : LockMetadata.isDurable { metadata with
        retainUntilExpiry := true
        phase := if metadata.phase = .signed then .signed else .broadcast } := by
      by_cases hsigned : metadata.phase = .signed <;> simp [LockMetadata.isDurable, hsigned]
    exact ⟨fun _ => rfl, fun _ => .inl hdurable, fun _ => .inl hdurable⟩
  · refine h.disk.operations row hrow (hoperation.imp_right fun hrelease => ?_)
    dsimp only at hrelease
    split_ifs at hrelease
  · dsimp only
    split_ifs <;> exact nofun

theorem retain_safe {proposalId : ℕ} {sendFlowId : String} (h : world.Sound) :
    Safe world (retainStoredProposalLockUntilExpiry proposalId sendFlowId world) := by
  unfold retainStoredProposalLockUntilExpiry
  split
  · exact .nil h
  · rename_i lock _
    cases hmark : markRetainUntilExpiry lock.owner world.rows with
    | error =>
      split_ifs <;> exact .nil h
    | ok rows' =>
      have hmarked := h.mark hmark
      dsimp only
      split_ifs
      · exact .nil h
      · exact .single hmarked
      · exact .cons hmarked.disk (.single ⟨hmarked.disk,
          (hmarked.memory.forgetProposal proposalId).forgetLock proposalId⟩)

theorem markStarted_safe {proposalId : ℕ} {sendFlowId : String} (h : world.Sound) :
    Safe world (markProposalBroadcastStarted proposalId sendFlowId world) := by
  unfold markProposalBroadcastStarted
  split
  · exact .nil h
  · split
    · exact .nil h
    · rename_i hmark
      exact .single (h.mark hmark)

/-! ## New proposals -/

theorem DiskSound.persist {inputs : List OutputRef} {expiryHeight : ℕ}
    (h : DiskSound outputLocks rows drawn bound kept) (hfresh : owner ∉ drawn)
    (hfree : ∀ output, outputLocks output ≠ some owner) :
    DiskSound outputLocks (persist session owner inputs expiryHeight rows) (owner :: drawn) bound
      kept where
  agree := h.agree.persist fun row hrow hsame => hfresh (hsame ▸ h.rowsDrawn row hrow)
  coherent row hrow := by
    obtain hold | ⟨-, -, hmetadata⟩ := mem_persist hrow
    · exact h.coherent row hold
    · rw [hmetadata]
      exact ⟨nofun, nofun, nofun⟩
  covered output other hlocked hdrawn := by
    obtain rfl | hdrawn := List.mem_cons.1 hdrawn
    · exact absurd hlocked (hfree output)
    refine (h.covered output other hlocked hdrawn).imp_right fun ⟨row, hrow, howner, houtput⟩ => ?_
    refine ⟨row, mem_persist_of_mem hrow fun hsame => hfresh ?_, howner, houtput⟩
    exact hsame ▸ h.rowsDrawn row hrow
  operations row hrow hoperation := by
    obtain hold | ⟨-, -, hmetadata⟩ := mem_persist hrow
    · exact h.operations row hold hoperation
    · rw [hmetadata] at hoperation
      obtain hsome | hrelease := hoperation
      · cases hsome
      · cases hrelease
  rowsDrawn row hrow := by
    obtain hold | ⟨howner, -, -⟩ := mem_persist hrow
    · exact List.mem_cons_of_mem _ (h.rowsDrawn row hold)
    · exact howner ▸ List.mem_cons_self
  boundDrawn := List.subset_cons_of_subset owner h.boundDrawn
  keptDrawn := List.subset_cons_of_subset owner h.keptDrawn

theorem MemorySound.persist {inputs : List OutputRef} {expiryHeight : ℕ}
    (h : MemorySound rows session store creating drawn bound kept) (hfresh : owner ∉ drawn)
    (hrows : ∀ row ∈ rows, row.owner ∈ drawn) :
    MemorySound (persist session owner inputs expiryHeight rows) session store creating
      (owner :: drawn) bound kept where
  __ := h
  locksDrawn lock hlock := List.mem_cons_of_mem _ (h.locksDrawn lock hlock)
  held lock hlock row hrow howner := by
    obtain hold | ⟨hnew, -, -⟩ := mem_persist hrow
    · exact h.held lock hlock row hold howner
    · exact absurd (hnew.symm.trans howner ▸ h.locksDrawn lock hlock) hfresh
  live lock hlock hpending := by
    obtain ⟨hbound, hlive⟩ := h.live lock hlock hpending
    refine ⟨hbound, fun output houtput => ?_⟩
    obtain ⟨row, hrow, howner, hsame⟩ := hlive output houtput
    exact ⟨row, mem_persist_of_mem hrow fun hnew => hfresh (hnew ▸ hrows row hrow), howner, hsame⟩

/-- The identifiers of a store with another proposal. -/
theorem pendingIds_register (stored : StoredProposal) (locks : List StoredProposalLock)
    (nextId : ℕ) : (pendingIds ⟨store.proposals ++ [stored], locks, nextId⟩ creating).Perm
      (stored.proposalId :: pendingIds store creating) := by
  rw [pendingIds, List.map_append, List.append_assoc]
  exact List.perm_middle

theorem MemorySound.register {sendFlowId : String} {inputs : List OutputRef}
    (h : MemorySound rows session store creating drawn bound kept) (hdrawn : owner ∈ drawn)
    (hbound : owner ∉ bound) (hkept : owner ∉ kept)
    (hnew : ∀ lock ∈ store.locks, lock.owner ≠ owner)
    (hheld : ∀ row ∈ rows, row.owner = owner →
      row.output ∈ inputs ∧ row.metadata.sessionId = session ∧ row.metadata.phase ≠ .legacy)
    (hlive : ∀ output ∈ inputs, ∃ row ∈ rows, row.owner = owner ∧ row.output = output) :
    MemorySound rows session
      { proposals := store.proposals ++ [⟨store.nextId, sendFlowId, inputs⟩]
        locks := store.locks ++ [⟨store.nextId, sendFlowId, owner, inputs⟩]
        nextId := store.nextId + 1 } creating drawn bound kept := by
  have hperm := @pendingIds_register store creating ⟨store.nextId, sendFlowId, inputs⟩
    (store.locks ++ [⟨store.nextId, sendFlowId, owner, inputs⟩]) (store.nextId + 1)
  have hnext : store.nextId ∉ pendingIds store creating :=
    fun hmem => lt_irrefl _ (h.below _ (.inr hmem))
  have hids : store.nextId ∉ store.locks.map StoredProposalLock.proposalId :=
    fun hmem => lt_irrefl _ (h.below _ (.inl hmem))
  have hlocks {P : StoredProposalLock → Prop}
      (hold : ∀ lock ∈ store.locks, P lock) (hlast : P ⟨store.nextId, sendFlowId, owner, inputs⟩) :
      ∀ lock ∈ store.locks ++ [⟨store.nextId, sendFlowId, owner, inputs⟩], P lock :=
    List.forall_mem_append.2 ⟨hold, List.forall_mem_singleton.2 hlast⟩
  have hpending {lock : StoredProposalLock} (hlock : lock ∈ store.locks)
      {ids : List ℕ} (hmem : lock.proposalId ∈ store.nextId :: ids) : lock.proposalId ∈ ids :=
    (List.mem_cons.1 hmem).resolve_left fun hsame => hids (hsame ▸ List.mem_map_of_mem hlock)
  refine ⟨?_, ?_, hperm.nodup_iff.2 (List.nodup_cons.2 ⟨hnext, h.pendingNodup⟩), fun id hid => ?_,
    hlocks h.locksDrawn hdrawn, hlocks h.notKept hkept, hlocks h.held hheld,
    hlocks (fun lock hlock hid => ?_) fun _ => ⟨hbound, hlive⟩,
    hlocks (fun lock hlock stored hstored hsame => ?_) fun stored hstored hsame => ?_,
    hlocks h.creatingInputs fun entry hentry hsame => ?_⟩
  · rw [List.map_append]
    exact h.ids.append (List.nodup_singleton _) (List.disjoint_singleton.2 hids)
  · rw [List.map_append]
    refine h.owners.append (List.nodup_singleton _) (List.disjoint_singleton.2 fun hmem => ?_)
    obtain ⟨lock, hlock, howner⟩ := List.mem_map.1 hmem
    exact hnew lock hlock howner
  · refine Nat.lt_succ_of_le ?_
    obtain hlock | hmem := hid
    · rw [List.map_append] at hlock
      obtain hold | hlast := List.mem_append.1 hlock
      · exact (h.below id (.inl hold)).le
      · exact (List.mem_singleton.1 hlast).le
    · obtain rfl | hold := List.mem_cons.1 (hperm.mem_iff.1 hmem)
      · exact le_rfl
      · exact (h.below id (.inr hold)).le
  · exact h.live lock hlock (hpending hlock (hperm.mem_iff.1 hid))
  · obtain hold | hlast := List.mem_append.1 hstored
    · exact h.proposalInputs lock hlock stored hold hsame
    · rw [List.mem_singleton.1 hlast] at hsame
      have hid : store.nextId = lock.proposalId := hsame
      exact absurd (hid ▸ List.mem_map_of_mem hlock) hids
  · obtain hold | hlast := List.mem_append.1 hstored
    · have hid : stored.proposalId = store.nextId := hsame
      exact absurd (hid ▸ List.mem_append_left _ (List.mem_map_of_mem hold)) hnext
    · rw [List.mem_singleton.1 hlast]
  · have hid : entry.1.proposalId = store.nextId := hsame
    have hmem : entry.1.proposalId ∈ pendingIds store creating :=
      List.mem_append_right _ (List.mem_map.2 ⟨entry, hentry, rfl⟩)
    exact absurd (hid ▸ hmem) hnext

theorem propose_safe {sendFlowId : String} {inputs : List OutputRef} {expiryHeight : ℕ}
    {refused : Bool} (h : world.Sound) (hfresh : owner ∉ world.drawn)
    (hfree : ∀ output, world.outputLocks output ≠ some owner) :
    Safe world (proposeSend sendFlowId owner inputs expiryHeight refused world) := by
  have hpersisted : Send.DiskSound world.outputLocks
      (persist world.session owner inputs expiryHeight world.rows) (owner :: world.drawn)
      world.bound world.kept := h.disk.persist hfresh hfree
  have hmemory : Send.MemorySound (persist world.session owner inputs expiryHeight world.rows)
      world.session world.store world.creating (owner :: world.drawn) world.bound world.kept :=
    h.memory.persist hfresh h.disk.rowsDrawn
  unfold proposeSend
  dsimp only
  split_ifs
  · exact .nil h
  · refine .cons hpersisted (.single ⟨hpersisted.remove (.inr hfree), ?_⟩)
    refine hmemory.rows_change
      (fun row hrow => ⟨row, List.mem_of_mem_filter hrow, rfl, rfl, rfl, id⟩)
      fun lock hlock _ row hrow howner => ⟨row, List.mem_filter.2 ⟨hrow, ?_⟩, rfl, rfl⟩
    exact decide_eq_true fun hsame => hfresh (hsame ▸ howner ▸ h.memory.locksDrawn lock hlock)
  · have hlocked := hpersisted.lock fun output houtput =>
      @exists_mem_persist world.rows owner world.session inputs expiryHeight output houtput
    refine .cons hpersisted (.cons hlocked (.single ⟨hlocked, ?_⟩))
    refine hmemory.register List.mem_cons_self (fun hbound => hfresh (h.disk.boundDrawn hbound))
      (fun hkept => hfresh (h.disk.keptDrawn hkept))
      (fun lock hlock howner => hfresh (howner ▸ h.memory.locksDrawn lock hlock))
      (fun row hrow howner => ?_) fun output houtput => exists_mem_persist houtput
    obtain hold | ⟨-, houtput, hmetadata⟩ := mem_persist hrow
    · exact absurd (howner ▸ h.disk.rowsDrawn row hold) hfresh
    · rw [hmetadata]
      exact ⟨houtput, rfl, nofun⟩

/-! ## PCZTs -/

theorem storedProposalLock_ok {proposalId : ℕ} {sendFlowId : String} {lock : StoredProposalLock}
    (h : storedProposalLock proposalId sendFlowId world = .ok lock) :
    world.store.findLock proposalId = some lock := by
  unfold storedProposalLock at h
  split_ifs at h
  split at h
  · cases h
  · rename_i hfind
    split_ifs at h
    obtain rfl := Except.ok.inj h
    exact hfind

/-- A proposal is consumed, and its PCZT is being made. -/
theorem MemorySound.consume {proposalId : ℕ} {stored : StoredProposal}
    (h : MemorySound rows session store creating drawn bound kept)
    (hstored : store.findProposal proposalId = some stored) :
    MemorySound rows session (store.forgetProposal proposalId) (creating ++ [(stored, owner)])
      drawn bound kept := by
  have hmem : stored ∈ store.proposals := List.mem_of_find?_eq_some hstored
  have hid : stored.proposalId = proposalId := by simpa using List.find?_some hstored
  have hin : stored.proposalId ∈ store.proposals.map StoredProposal.proposalId :=
    List.mem_map_of_mem hmem
  have hperm : (pendingIds (store.forgetProposal proposalId)
      (creating ++ [(stored, owner)])).Perm
      (stored.proposalId :: pendingIds (store.forgetProposal proposalId) creating) := by
    rw [pendingIds, List.map_append, ← List.append_assoc, List.map_singleton]
    exact List.perm_append_singleton _ _
  have hsub : (pendingIds (store.forgetProposal proposalId) creating).Sublist
      (pendingIds store creating) := (List.filter_sublist.map _).append_right _
  have hgone : stored.proposalId ∉ pendingIds (store.forgetProposal proposalId) creating := by
    intro hpending
    obtain hproposal | hcreating := List.mem_append.1 hpending
    · obtain ⟨other, hother, hsame⟩ := List.mem_map.1 hproposal
      exact of_decide_eq_true (List.mem_filter.1 hother).2 (hsame.trans hid)
    · exact (List.nodup_append'.1 h.pendingNodup).2.2 hin hcreating
  have hold {id : ℕ} (hpending : id ∈ pendingIds (store.forgetProposal proposalId)
      (creating ++ [(stored, owner)])) : id ∈ pendingIds store creating := by
    obtain rfl | hrest := List.mem_cons.1 (hperm.mem_iff.1 hpending)
    · exact List.mem_append_left _ hin
    · exact hsub.subset hrest
  exact { h with
    pendingNodup := hperm.nodup_iff.2 (List.nodup_cons.2 ⟨hgone, h.pendingNodup.sublist hsub⟩)
    below := fun id hid => h.below id (hid.imp_right hold)
    live := fun other hother hpending => h.live other hother (hold hpending)
    proposalInputs := fun other hother proposal hproposal =>
      h.proposalInputs other hother proposal (List.mem_of_mem_filter hproposal)
    creatingInputs := fun other hother entry hentry hsame => by
      obtain hentry | hlast := List.mem_append.1 hentry
      · exact h.creatingInputs other hother entry hentry hsame
      · rw [List.mem_singleton.1 hlast] at hsame ⊢
        exact h.proposalInputs other hother stored hmem hsame }

theorem begin_safe {proposalId : ℕ} {sendFlowId : String} {live : Bool} (h : world.Sound) :
    Safe world (beginPczt proposalId sendFlowId live world) := by
  have hfail : Safe world (world.forgetProposal proposalId ::
      finishStoredProposal proposalId sendFlowId true (world.forgetProposal proposalId)) :=
    .cons h.disk (finishInner_safe (h.forgetProposal proposalId))
  unfold beginPczt
  by_cases hclosed : world.shuttingDown
  · rw [if_pos hclosed]
    exact .nil h
  · rw [if_neg hclosed]
    split
    · exact .nil h
    · rename_i stored hstored
      dsimp only
      by_cases hflow : stored.sendFlowId ≠ sendFlowId
      · rw [if_pos hflow]
        exact .nil h
      · rw [if_neg hflow]
        split
        · exact hfail
        · split_ifs
          · exact .single ⟨h.disk, h.memory.consume hstored⟩
          · exact hfail

/-- An owner whose proposal is not pending any more is bound to a PCZT. -/
theorem MemorySound.bind (h : MemorySound rows session store creating drawn bound kept)
    (hpending : ∀ lock ∈ store.locks, lock.proposalId ∈ pendingIds store creating →
      lock.owner ≠ owner) :
    MemorySound rows session store creating drawn (owner :: bound) kept where
  __ := h
  live lock hlock hid := by
    obtain ⟨hbound, hlive⟩ := h.live lock hlock hid
    exact ⟨fun hmem => (List.mem_cons.1 hmem).elim (hpending lock hlock hid) hbound, hlive⟩

/-- A PCZT that is made is not pending any more. -/
theorem not_pending_of_resumed {proposalId : ℕ} {entry : StoredProposal × LockOwner}
    (h : MemorySound rows session store creating drawn bound kept)
    (hfind : creating.find? (·.1.proposalId = proposalId) = some entry) :
    proposalId ∉ pendingIds store (creating.filter (·.1.proposalId ≠ proposalId)) := by
  have hmem : entry ∈ creating := List.mem_of_find?_eq_some hfind
  obtain rfl : entry.1.proposalId = proposalId := by simpa using List.find?_some hfind
  intro hpending
  obtain hproposal | hcreating := List.mem_append.1 hpending
  · exact (List.nodup_append'.1 h.pendingNodup).2.2 hproposal
      (List.mem_map.2 ⟨entry, hmem, rfl⟩)
  · obtain ⟨other, hother, hsame⟩ := List.mem_map.1 hcreating
    exact of_decide_eq_true (List.mem_filter.1 hother).2 hsame

theorem finishPczt_safe {proposalId liveExpiryHeight : ℕ} {refused created : Bool}
    (h : world.Sound) :
    Safe world (finishPczt proposalId liveExpiryHeight refused created world) := by
  unfold finishPczt
  cases hentry : world.creating.find? (·.1.proposalId = proposalId) with
  | none => exact .nil h
  | some entry =>
    obtain ⟨stored, owner⟩ := entry
    set resumed := { world with creating := world.creating.filter (·.1.proposalId ≠ proposalId) }
      with hresumed
    have hsound : resumed.Sound := ⟨h.disk, h.memory.resume proposalId⟩
    have hfail : Safe world (resumed ::
        finishStoredProposal proposalId stored.sendFlowId true resumed) :=
      .cons hsound.disk (finishInner_safe hsound)
    dsimp only
    cases hcurrent : storedProposalLock proposalId stored.sendFlowId resumed with
    | error => exact hfail
    | ok current =>
      dsimp only
      by_cases hrefused : current.owner ≠ owner ∨ refused
      · rw [if_pos hrefused]
        exact hfail
      · rw [if_neg hrefused]
        have howner : current.owner = owner := not_not.1 fun hne => hrefused (.inl hne)
        obtain ⟨hlock, hid⟩ : current ∈ world.store.locks ∧ current.proposalId = proposalId :=
          mem_of_findLock (storedProposalLock_ok hcurrent)
        have hmem : (stored, owner) ∈ world.creating := List.mem_of_find?_eq_some hentry
        have hstored : stored.proposalId = proposalId := by simpa using List.find?_some hentry
        have hpending : current.proposalId ∈ pendingIds world.store world.creating :=
          List.mem_append_right _ (List.mem_map.2 ⟨_, hmem, hstored.trans hid.symm⟩)
        have hinputs : stored.inputs = current.inputs :=
          h.memory.creatingInputs current hlock _ hmem (hstored.trans hid.symm)
        obtain ⟨-, hrows⟩ := h.memory.live current hlock hpending
        have hlocked : Send.DiskSound (lockOutputs stored.inputs owner world.outputLocks) world.rows
            world.drawn world.bound world.kept :=
          h.disk.lock fun output houtput => howner ▸ hrows output (hinputs ▸ houtput)
        set locked := { resumed with
          outputLocks := lockOutputs stored.inputs owner world.outputLocks } with hlockedEq
        have hlockedSound : locked.Sound := ⟨hlocked, hsound.memory⟩
        cases hexpiry : updateExpiry owner liveExpiryHeight world.rows with
        | error => exact .cons hlocked (finishInner_safe hlockedSound)
        | ok rows' =>
          simp only [updateExpiry, bind_eq_ok, pure_eq_ok] at hexpiry
          obtain ⟨-, -, rfl⟩ := hexpiry
          have hextended : (locked.withRows (updateRows (fun other _ => other = owner)
              ({ · with expiryHeight := liveExpiryHeight }) world.rows).1).Sound :=
            hlockedSound.updateRows _ _
              (fun _ hcoherent => ⟨hcoherent.retained, hcoherent.durable, hcoherent.signed⟩)
              (fun row hrow _ => hlocked.operations row hrow) (fun _ => rfl) fun _ hphase => hphase
          dsimp only
          split_ifs
          · refine .cons hlocked (.cons hextended.disk (.single
              ⟨hextended.disk.bind (howner ▸ h.memory.locksDrawn current hlock), ?_⟩))
            refine hextended.memory.bind fun lock hmemLock hstill hsame => ?_
            obtain rfl := h.memory.eq_of_owner hmemLock hlock (hsame.trans howner.symm)
            have hpending : lock.proposalId ∈ pendingIds world.store
              (world.creating.filter (·.1.proposalId ≠ proposalId)) := hstill
            exact not_pending_of_resumed h.memory hentry (hid ▸ hpending)
          · exact .cons hlocked (.cons hextended.disk (finishInner_safe hextended))

/-! ## The outbox -/

theorem World.Sound.commit {outbox : Outbox} (h : (world.withRows outbox.rows).Sound) :
    Safe world [{ world with outbox := outbox }] :=
  .single ⟨h.disk, h.memory⟩

theorem World.Sound.checkpointOwner {operationId : String} {rows' : List LockRow} (h : world.Sound)
    (hbound : owner ∈ world.bound)
    (hcheckpoint : checkpointOwner world.session operationId world.rows owner = .ok rows') :
    (world.withRows rows').Sound := by
  simp only [Send.checkpointOwner, bind_eq_ok, pure_eq_ok] at hcheckpoint
  obtain ⟨-, -, rfl⟩ := hcheckpoint
  refine h.updateRows _ _ (fun _ _ => ⟨fun _ => rfl, fun _ => .inl rfl, fun _ => .inl rfl⟩)
    (fun row _ hcondition _ => ?_) (fun _ => rfl) fun _ _ h => by cases h
  exact (of_decide_eq_true hcondition).1 ▸ hbound

theorem World.Sound.releaseOperation (h : world.Sound) (operationId : String) :
    (world.withRows (releaseOperation operationId world.rows)).Sound := by
  refine h.updateRows _ _ (fun _ _ => ⟨nofun, nofun, fun _ => .inr rfl⟩)
    (fun row hrow hcondition _ => ?_) (fun _ => rfl) fun _ _ => nofun
  refine h.disk.operations row hrow (.inl ?_)
  rw [of_decide_eq_true hcondition]
  rfl

theorem checkpoint_safe {validate : Except String Unit} {operationId accountUuid : String}
    {kind : OperationKind} {externalRef : Option String} {rounds : List SignedRound}
    (h : world.Sound) (hbound : ∀ owner ∈ Ledger.boundOwners rounds, owner ∈ world.bound) :
    Safe world (world.commit (Ledger.checkpointBatch world.session world.shuttingDown validate
      operationId accountUuid kind externalRef rounds world.outbox)) := by
  cases hresult : Ledger.checkpointBatch world.session world.shuttingDown validate operationId
      accountUuid kind externalRef rounds world.outbox with
  | error => exact .nil h
  | ok outbox =>
    refine World.Sound.commit ?_
    simp only [Ledger.checkpointBatch, bind_eq_ok] at hresult
    obtain ⟨-, -, -, -, -, -, expiryHeight, -, -, -, -, -, hresult⟩ := hresult
    split at hresult
    · simp only [bind_eq_ok, pure_eq_ok] at hresult
      obtain ⟨-, -, rfl⟩ := hresult
      exact h
    · simp only [bind_eq_ok, pure_eq_ok] at hresult
      obtain ⟨rows', hrows', rfl⟩ := hresult
      refine @foldlM_invariant _ _ _ (Send.checkpointOwner world.session operationId)
        (fun rows => (world.withRows rows).Sound) _ _ _
        (fun rows owner rows'' howner hrows hstep => ?_) h hrows'
      have hnext := hrows.checkpointOwner (hbound owner howner) hstep
      exact hnext

theorem applyOutcome_safe {operationId : String} {kind : OperationKind}
    {outcome : BroadcastOutcome} (h : world.Sound) :
    Safe world (world.commit (Ledger.applyBroadcastOutcome operationId kind outcome
      world.outbox)) := by
  cases hresult : Ledger.applyBroadcastOutcome operationId kind outcome world.outbox with
  | error => exact .nil h
  | ok outbox =>
    refine World.Sound.commit ?_
    simp only [Ledger.applyBroadcastOutcome, bind_eq_ok, pure_eq_ok] at hresult
    obtain ⟨-, -, rfl⟩ := hresult
    dsimp only
    by_cases hreleases : outcome.status = .broadcasted ∨ outcome.status = .expired
    · rw [if_pos hreleases]
      exact h.releaseOperation operationId
    · rw [if_neg hreleases]
      exact h

theorem recordFailure_safe {operationId message : String} (h : world.Sound) :
    Safe world (world.commit
      (.ok (Ledger.recordBroadcastFailure operationId message world.outbox).1)) := by
  refine World.Sound.commit ?_
  unfold Ledger.recordBroadcastFailure
  dsimp only
  split_ifs
  · exact h.releaseOperation operationId
  · exact h

/-! ## Shutdown -/

theorem cleanupOne_safe {proposalId : ℕ} (h : world.Sound) :
    Safe world (cleanupOne proposalId world) := by
  unfold cleanupOne
  split
  · exact .nil h
  · exact unlock_safe h

theorem shutdownCleanup_safe {reached : List ℕ} (h : world.Sound) :
    Safe world (shutdownCleanup reached world) := by
  induction reached generalizing world with
  | nil => exact .nil h
  | cons proposalId rest ih =>
    rw [shutdownCleanup]
    have hfirst := @cleanupOne_safe world proposalId h
    exact .append hfirst.disk (ih hfirst.last)

theorem shutdown_safe {reached : List ℕ} (h : world.Sound) :
    Safe world (shutdownSigningReservations reached world) :=
  .cons h.disk (shutdownCleanup_safe ⟨h.disk, h.memory⟩)

/-! ## Recovery -/

variable {targetHeight : Option ℕ}

/-- The outputs that a recovery releases. -/
def recoveryReleases (targetHeight : Option ℕ) (locks : List SendLock) :
    List (LockOwner × OutputRef) :=
  (releasedAt targetHeight locks).flatMap fun lock =>
    lock.outputs.map fun output => (lock.owner, output)

theorem mem_releasedAt {locks : List SendLock} {lock : SendLock} :
    lock ∈ releasedAt targetHeight locks ↔ lock ∈ locks ∧
      shouldReleaseAfterRestart lock.retainUntilExpiry targetHeight lock.expiryHeight :=
  List.mem_filter

/-- The rows of an owner whose locks are released. -/
theorem rows_of_released {locks : List SendLock} (h : Agree rows)
    (hread : readPreviousSessionLocks session rows = .ok locks)
    (howner : owner ∈ (releasedAt targetHeight locks).map SendLock.owner) :
    ∀ row ∈ rows, row.owner = owner → row.metadata.isOrphan session ∧
      shouldReleaseAfterRestart row.metadata.retainUntilExpiry targetHeight
        row.metadata.expiryHeight ∧ (owner, row.output) ∈ recoveryReleases targetHeight locks := by
  obtain ⟨lock, hlock, rfl⟩ := List.mem_map.1 howner
  obtain ⟨hmem, hreleases⟩ := mem_releasedAt.1 hlock
  obtain ⟨horigin, hrows⟩ := readPreviousSessionLocks_spec hread
  obtain ⟨source, hsource, horphan, hcolumns⟩ := horigin lock hmem
  simp only [SendLock.columns, LockRow.columns, Prod.mk.injEq] at hcolumns
  obtain ⟨hsame, hsourceExpiry, hsourceRetain⟩ := hcolumns
  rw [hsourceExpiry, hsourceRetain] at hreleases
  intro row hrow hrowOwner
  have hmetadata : row.metadata = source.metadata :=
    h row hrow source hsource (hrowOwner.trans hsame)
  rw [← hmetadata] at horphan hreleases
  obtain ⟨other, hother, hotherColumns, houtput⟩ := hrows row hrow horphan
  simp only [SendLock.columns, LockRow.columns, Prod.mk.injEq] at hotherColumns
  obtain ⟨hotherOwner, hotherExpiry, hotherRetain⟩ := hotherColumns
  refine ⟨horphan, hreleases, List.mem_flatMap.2 ⟨other, ?_, List.mem_map.2 ⟨_, houtput, ?_⟩⟩⟩
  · exact mem_releasedAt.2 ⟨hother, by rw [hotherExpiry, hotherRetain]; exact hreleases⟩
  · rw [hotherOwner, hrowOwner]

/-- An owner that is released has no proposal that can still be made into a PCZT. -/
theorem World.Sound.not_pending_of_released {locks : List SendLock} (h : world.Sound)
    (hread : readPreviousSessionLocks world.session world.rows = .ok locks)
    {lock : StoredProposalLock} (hlock : lock ∈ world.store.locks) {row : LockRow}
    (hrow : row ∈ world.rows) (howner : row.owner = lock.owner)
    (hpending : lock.proposalId ∈ pendingIds world.store world.creating) :
    row.owner ∉ (releasedAt targetHeight locks).map SendLock.owner := by
  intro hreleased
  obtain ⟨horphan, -, -⟩ := rows_of_released h.disk.agree hread hreleased row hrow rfl
  obtain ⟨-, hsession, -⟩ := h.memory.held lock hlock row hrow howner
  obtain hother | hrelease := of_decide_eq_true horphan
  · exact hother hsession
  · have hbound : row.owner ∈ world.bound := h.disk.operations row hrow (.inr hrelease)
    exact (h.memory.live lock hlock hpending).1 (howner ▸ hbound)

theorem recoverPrevious_safe (h : world.Sound) :
    Safe world (recoverPreviousProcess targetHeight world) := by
  unfold recoverPreviousProcess
  cases hread : readPreviousSessionLocks world.session world.rows with
  | error => exact .nil h
  | ok locks =>
    refine Safe.append (fun state hstate => ?_) (.single ⟨?_, ?_⟩)
    · obtain ⟨outputLocks, houtputLocks, rfl⟩ := List.mem_map.1 hstate
      exact h.disk.released (released_of_mem_unlockEach houtputLocks)
    · have hreleased := released_unlockAll world.outputLocks (recoveryReleases targetHeight locks)
      refine (h.disk.released hreleased).filter
        fun output owner hdrawn hheld hkept row hrow howner => decide_eq_true fun hgone => ?_
      have hbefore : world.outputLocks output = some owner := by
        obtain hsame | ⟨hnone, -⟩ := hreleased output
        · exact hsame ▸ hheld
        · cases hnone.symm.trans hheld
      obtain ⟨covering, hcovering, rfl, rfl⟩ :=
        (h.disk.covered output owner hbefore hdrawn).resolve_left hkept
      rw [howner] at hgone
      obtain ⟨-, -, hmem⟩ := rows_of_released h.disk.agree hread hgone covering hcovering rfl
      exact unlockAll_ne hmem hheld
    · refine h.memory.rows_change
        (fun row hrow => ⟨row, List.mem_of_mem_filter hrow, rfl, rfl, rfl, id⟩)
        fun lock hlock hpending row hrow howner => ⟨row, List.mem_filter.2 ⟨hrow, ?_⟩, rfl, rfl⟩
      exact decide_eq_true (h.not_pending_of_released hread hlock hrow howner hpending)

theorem recover_safe (h : world.Sound) : Safe world (recoverBeforeBalance world) :=
  @recoverPrevious_safe world none h

end VizorWallet.Send
