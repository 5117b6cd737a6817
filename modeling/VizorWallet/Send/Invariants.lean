import VizorWallet.Send.Reservations

/-!
# Invariants of the reservations

What holds of the stores on disk at every commit, and of the stores of the process between
operations.

## Main definitions

* `DiskSound`, `MemorySound` — the invariants of the stores.

## Main results

* `DiskSound.update`, `DiskSound.filter` — updates and deletions of rows that keep the invariant.
* `MemorySound.rows_change` — the process does not mind changes to the rows of other owners.
-/

namespace VizorWallet.Send

/-! ## Invariants -/

/-- What the retain flag and the operation say about the phase. -/
structure LockMetadata.Coherent (metadata : LockMetadata) : Prop where
  retained : metadata.isDurable → metadata.retainUntilExpiry
  durable : metadata.retainUntilExpiry → metadata.isDurable ∨ metadata.phase = .legacy
  signed : metadata.operationId.isSome → metadata.isDurable ∨ metadata.phase = .release

/-- The stores on disk, after the owners that were drawn, bound to a PCZT and kept locked. -/
structure DiskSound (outputLocks : OutputLocks) (rows : List LockRow)
    (drawn bound kept : List LockOwner) : Prop where
  agree : Agree rows
  coherent : ∀ row ∈ rows, row.metadata.Coherent
  covered : ∀ output owner, outputLocks output = some owner → owner ∈ drawn →
    owner ∈ kept ∨ ∃ row ∈ rows, row.owner = owner ∧ row.output = output
  operations : ∀ row ∈ rows, row.metadata.operationId.isSome ∨ row.metadata.phase = .release →
    row.owner ∈ bound
  rowsDrawn : ∀ row ∈ rows, row.owner ∈ drawn
  boundDrawn : bound ⊆ drawn
  keptDrawn : kept ⊆ drawn

abbrev World.DiskSound (world : World) : Prop :=
  Send.DiskSound world.outputLocks world.rows world.drawn world.bound world.kept

/-- The proposals that can still be made into a PCZT. -/
def pendingIds (store : ProposalStore) (creating : List (StoredProposal × LockOwner)) : List ℕ :=
  store.proposals.map StoredProposal.proposalId ++ creating.map (·.1.proposalId)

/-- The proposal store of the process, against the rows of its owners. -/
structure MemorySound (rows : List LockRow) (session : SessionId) (store : ProposalStore)
    (creating : List (StoredProposal × LockOwner)) (drawn bound kept : List LockOwner) : Prop where
  ids : (store.locks.map StoredProposalLock.proposalId).Nodup
  owners : (store.locks.map StoredProposalLock.owner).Nodup
  pendingNodup : (pendingIds store creating).Nodup
  below : ∀ id,
    id ∈ store.locks.map StoredProposalLock.proposalId ∨ id ∈ pendingIds store creating →
    id < store.nextId
  locksDrawn : ∀ lock ∈ store.locks, lock.owner ∈ drawn
  notKept : ∀ lock ∈ store.locks, lock.owner ∉ kept
  held : ∀ lock ∈ store.locks, ∀ row ∈ rows, row.owner = lock.owner →
    row.output ∈ lock.inputs ∧ row.metadata.sessionId = session ∧ row.metadata.phase ≠ .legacy
  live : ∀ lock ∈ store.locks, lock.proposalId ∈ pendingIds store creating →
    lock.owner ∉ bound ∧ ∀ output ∈ lock.inputs, ∃ row ∈ rows, row.owner = lock.owner ∧
      row.output = output
  proposalInputs : ∀ lock ∈ store.locks, ∀ stored ∈ store.proposals,
    stored.proposalId = lock.proposalId → stored.inputs = lock.inputs
  creatingInputs : ∀ lock ∈ store.locks, ∀ entry ∈ creating,
    entry.1.proposalId = lock.proposalId → entry.1.inputs = lock.inputs

abbrev World.MemorySound (world : World) : Prop :=
  Send.MemorySound world.rows world.session world.store world.creating world.drawn world.bound
    world.kept

structure World.Sound (world : World) : Prop where
  disk : world.DiskSound
  memory : world.MemorySound

variable {outputLocks outputLocks' : OutputLocks} {rows rows' : List LockRow}
  {session : SessionId} {store : ProposalStore} {creating : List (StoredProposal × LockOwner)}
  {drawn bound kept : List LockOwner} {owner : LockOwner} {world : World}

/-! ## What the disk allows -/

theorem DiskSound.released {releases : List (LockOwner × OutputRef)}
    (h : DiskSound outputLocks rows drawn bound kept)
    (hreleased : Released outputLocks outputLocks' releases) :
    DiskSound outputLocks' rows drawn bound kept where
  __ := h
  covered output owner hlocked hdrawn := by
    obtain hsame | ⟨hnone, -⟩ := hreleased output
    · exact h.covered output owner (hsame ▸ hlocked) hdrawn
    · cases hnone.symm.trans hlocked

/-- Locks for which there are rows. -/
theorem DiskSound.lock {inputs : List OutputRef} (h : DiskSound outputLocks rows drawn bound kept)
    (hrows : ∀ output ∈ inputs, ∃ row ∈ rows, row.owner = owner ∧ row.output = output) :
    DiskSound (lockOutputs inputs owner outputLocks) rows drawn bound kept where
  __ := h
  covered output other hlocked hdrawn := by
    unfold lockOutputs at hlocked
    split_ifs at hlocked with hinput
    · obtain rfl := Option.some.inj hlocked
      exact .inr (hrows output hinput)
    · exact h.covered output other hlocked hdrawn

/-- An update of metadata that keeps what is known about it. -/
theorem DiskSound.update {condition : LockOwner → LockMetadata → Bool}
    {update : LockMetadata → LockMetadata} (h : DiskSound outputLocks rows drawn bound kept)
    (hcoherent : ∀ metadata : LockMetadata, metadata.Coherent → (update metadata).Coherent)
    (hoperations : ∀ row ∈ rows, condition row.owner row.metadata →
      (update row.metadata).operationId.isSome ∨ (update row.metadata).phase = .release →
        row.owner ∈ bound) :
    DiskSound outputLocks (updateRows condition update rows).1 drawn bound kept where
  agree := h.agree.updateRows condition update
  coherent row hrow := by
    obtain ⟨old, hold, rfl⟩ := mem_updateRows.1 hrow
    dsimp only
    split_ifs
    · exact hcoherent old.metadata (h.coherent old hold)
    · exact h.coherent old hold
  covered output owner hlocked hdrawn := by
    refine (h.covered output owner hlocked hdrawn).imp_right fun ⟨row, hrow, howner, houtput⟩ => ?_
    exact ⟨_, mem_updateRows.2 ⟨row, hrow, rfl⟩, howner, houtput⟩
  operations row hrow := by
    obtain ⟨old, hold, rfl⟩ := mem_updateRows.1 hrow
    dsimp only
    split_ifs with hcondition
    · exact hoperations old hold hcondition
    · exact h.operations old hold
  rowsDrawn row hrow := by
    obtain ⟨old, hold, rfl⟩ := mem_updateRows.1 hrow
    exact h.rowsDrawn old hold
  boundDrawn := h.boundDrawn
  keptDrawn := h.keptDrawn

/-- Rows may go when their owners hold nothing, or keep what they hold. -/
theorem DiskSound.filter {keeps : LockRow → Bool} (h : DiskSound outputLocks rows drawn bound kept)
    (hheld : ∀ output, ∀ owner ∈ drawn, outputLocks output = some owner → owner ∉ kept →
      ∀ row ∈ rows, row.owner = owner → keeps row) :
    DiskSound outputLocks (rows.filter keeps) drawn bound kept where
  agree := h.agree.subset (List.filter_subset_self _)
  coherent row hrow := h.coherent row (List.mem_of_mem_filter hrow)
  covered output owner hlocked hdrawn := by
    by_cases hkept : owner ∈ kept
    · exact .inl hkept
    · obtain ⟨row, hrow, howner, houtput⟩ :=
        (h.covered output owner hlocked hdrawn).resolve_left hkept
      have hkeeps := hheld output owner hdrawn hlocked hkept row hrow howner
      exact .inr ⟨row, List.mem_filter.2 ⟨hrow, hkeeps⟩, howner, houtput⟩
  operations row hrow := h.operations row (List.mem_of_mem_filter hrow)
  rowsDrawn row hrow := h.rowsDrawn row (List.mem_of_mem_filter hrow)
  boundDrawn := h.boundDrawn
  keptDrawn := h.keptDrawn

/-- The rows of an owner go. -/
theorem DiskSound.remove (h : DiskSound outputLocks rows drawn bound kept)
    (hheld : owner ∈ kept ∨ ∀ output, outputLocks output ≠ some owner) :
    DiskSound outputLocks (remove owner rows) drawn bound kept := by
  refine h.filter fun output other _ hlocked hkept row hrow howner => decide_eq_true ?_
  rintro rfl
  obtain hkept' | hfree := hheld
  · exact hkept (howner ▸ hkept')
  · exact hfree output (howner ▸ hlocked)

theorem DiskSound.keep (h : DiskSound outputLocks rows drawn bound kept) (howner : owner ∈ drawn) :
    DiskSound outputLocks rows drawn bound (owner :: kept) where
  __ := h
  covered output other hlocked hdrawn :=
    (h.covered output other hlocked hdrawn).imp_left (List.mem_cons_of_mem owner)
  keptDrawn := List.cons_subset.2 ⟨howner, h.keptDrawn⟩

theorem DiskSound.bind (h : DiskSound outputLocks rows drawn bound kept) (howner : owner ∈ drawn) :
    DiskSound outputLocks rows drawn (owner :: bound) kept where
  __ := h
  operations row hrow hoperation := List.mem_cons_of_mem owner (h.operations row hrow hoperation)
  boundDrawn := List.cons_subset.2 ⟨howner, h.boundDrawn⟩

/-! ## What the process allows -/

/-- The rows of the owners of pending proposals stay. -/
theorem MemorySound.rows_change (h : MemorySound rows session store creating drawn bound kept)
    (hold : ∀ row' ∈ rows', ∃ row ∈ rows, row'.owner = row.owner ∧ row'.output = row.output ∧
      row'.metadata.sessionId = row.metadata.sessionId ∧
        (row.metadata.phase ≠ .legacy → row'.metadata.phase ≠ .legacy))
    (hnew : ∀ lock ∈ store.locks, lock.proposalId ∈ pendingIds store creating →
      ∀ row ∈ rows, row.owner = lock.owner → ∃ row' ∈ rows', row'.owner = row.owner ∧
        row'.output = row.output) :
    MemorySound rows' session store creating drawn bound kept where
  __ := h
  held lock hlock row' hrow' howner := by
    obtain ⟨row, hrow, hsame, houtput, hsession, hphase⟩ := hold row' hrow'
    rw [houtput, hsession]
    exact (h.held lock hlock row hrow (hsame.symm.trans howner)).imp_right (And.imp_right hphase)
  live lock hlock hpending := by
    obtain ⟨hbound, hrows⟩ := h.live lock hlock hpending
    refine ⟨hbound, fun output houtput => ?_⟩
    obtain ⟨row, hrow, howner, hsame⟩ := hrows output houtput
    obtain ⟨row', hrow', howner', hsame'⟩ := hnew lock hlock hpending row hrow howner
    exact ⟨row', hrow', howner'.trans howner, hsame'.trans hsame⟩

theorem MemorySound.update {condition : LockOwner → LockMetadata → Bool}
    {update : LockMetadata → LockMetadata}
    (h : MemorySound rows session store creating drawn bound kept)
    (hsession : ∀ metadata, (update metadata).sessionId = metadata.sessionId)
    (hphase : ∀ metadata : LockMetadata, metadata.phase ≠ .legacy →
      (update metadata).phase ≠ .legacy) :
    MemorySound (updateRows condition update rows).1 session store creating drawn bound kept := by
  refine h.rows_change (fun row' hrow' => ?_) fun _ _ _ row hrow _ =>
    ⟨_, mem_updateRows.2 ⟨row, hrow, rfl⟩, rfl, rfl⟩
  obtain ⟨row, hrow, rfl⟩ := mem_updateRows.1 hrow'
  refine ⟨row, hrow, rfl, rfl, ?_⟩
  dsimp only
  split_ifs
  · exact ⟨hsession row.metadata, hphase row.metadata⟩
  · exact ⟨rfl, id⟩

/-- Fewer locks, and fewer pending proposals. -/
theorem MemorySound.shrink {store' : ProposalStore}
    {creating' : List (StoredProposal × LockOwner)}
    (h : MemorySound rows session store creating drawn bound kept)
    (hlocks : store'.locks.Sublist store.locks) (hproposals : store'.proposals ⊆ store.proposals)
    (hcreating : creating' ⊆ creating)
    (hpending : (pendingIds store' creating').Sublist (pendingIds store creating))
    (hnext : store'.nextId = store.nextId) :
    MemorySound rows session store' creating' drawn bound kept where
  ids := h.ids.sublist (hlocks.map _)
  owners := h.owners.sublist (hlocks.map _)
  pendingNodup := h.pendingNodup.sublist hpending
  below id hid := hnext ▸ h.below id
    (hid.imp (fun hid => (hlocks.map _).subset hid) fun hid => hpending.subset hid)
  locksDrawn lock hlock := h.locksDrawn lock (hlocks.subset hlock)
  notKept lock hlock := h.notKept lock (hlocks.subset hlock)
  held lock hlock := h.held lock (hlocks.subset hlock)
  live lock hlock hid := h.live lock (hlocks.subset hlock) (hpending.subset hid)
  proposalInputs lock hlock stored hstored :=
    h.proposalInputs lock (hlocks.subset hlock) stored (hproposals hstored)
  creatingInputs lock hlock entry hentry :=
    h.creatingInputs lock (hlocks.subset hlock) entry (hcreating hentry)

theorem MemorySound.forgetLock (h : MemorySound rows session store creating drawn bound kept)
    (proposalId : ℕ) :
    MemorySound rows session (store.forgetLock proposalId) creating drawn bound kept :=
  h.shrink List.filter_sublist (List.Subset.refl _) (List.Subset.refl _) (List.Sublist.refl _) rfl

theorem MemorySound.forgetProposal (h : MemorySound rows session store creating drawn bound kept)
    (proposalId : ℕ) :
    MemorySound rows session (store.forgetProposal proposalId) creating drawn bound kept :=
  h.shrink (List.Sublist.refl _) (List.filter_subset_self _) (List.Subset.refl _)
    ((List.filter_sublist.map _).append_right _) rfl

theorem MemorySound.resume (h : MemorySound rows session store creating drawn bound kept)
    (proposalId : ℕ) :
    MemorySound rows session store (creating.filter (·.1.proposalId ≠ proposalId)) drawn bound
      kept :=
  h.shrink (List.Sublist.refl _) (List.Subset.refl _) (List.filter_subset_self _)
    ((List.filter_sublist.map _).append_left _) rfl

/-- The owners of two capabilities differ. -/
theorem MemorySound.eq_of_owner (h : MemorySound rows session store creating drawn bound kept)
    {lock lock' : StoredProposalLock} (hlock : lock ∈ store.locks) (hlock' : lock' ∈ store.locks)
    (howner : lock.owner = lock'.owner) : lock = lock' :=
  List.inj_on_of_nodup_map h.owners hlock hlock' howner

theorem mem_of_findLock {proposalId : ℕ} {lock : StoredProposalLock}
    (h : store.findLock proposalId = some lock) :
    lock ∈ store.locks ∧ lock.proposalId = proposalId :=
  ⟨List.mem_of_find?_eq_some h, by simpa using List.find?_some h⟩

/-- The rows of a capability that was forgotten may go. -/
theorem MemorySound.forget (h : MemorySound rows session store creating drawn bound kept)
    {proposalId : ℕ} {lock : StoredProposalLock} (hfind : store.findLock proposalId = some lock) :
    MemorySound (remove lock.owner rows) session (store.forgetLock proposalId) creating drawn bound
      kept := by
  obtain ⟨hlock, rfl⟩ := mem_of_findLock hfind
  refine (h.forgetLock lock.proposalId).rows_change (fun row hrow =>
    ⟨row, List.mem_of_mem_filter hrow, rfl, rfl, rfl, id⟩) fun other hother _ row hrow howner => ?_
  obtain ⟨hmem, hne⟩ := List.mem_filter.1 hother
  refine ⟨row, List.mem_filter.2 ⟨hrow, decide_eq_true fun hsame => ?_⟩, rfl, rfl⟩
  rw [h.eq_of_owner hmem hlock (howner.symm.trans hsame)] at hne
  simp at hne

end VizorWallet.Send
