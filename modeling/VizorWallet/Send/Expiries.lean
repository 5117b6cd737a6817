import VizorWallet.Ledger.Tidy

/-!
# Reservations keep the expiry of their PCZT

The rows of an owner get their last expiry when its PCZT is made. From then on every operation keeps
it, and keeps signed reservations signed until their operation is released.

## Main definitions

* `Continues` — what may happen to the metadata of a row.
* `Carries` — what may happen to the rows of owners whose PCZT is made.

## Main results

* `SendOperation.carries` — every commit of an operation carries them.
-/

namespace VizorWallet.Send

/-- The expiry stays, and a signed reservation stays signed unless its operation is released. -/
structure Continues (released : String → Prop) (old new : LockMetadata) : Prop where
  expiry : new.expiryHeight = old.expiryHeight
  signed : ∀ operationId, old.isDurable → old.operationId = some operationId →
    ¬ released operationId → new.isDurable ∧ new.operationId = some operationId

/-- The rows of some owners come from rows of theirs. -/
def RowsContinue (released : String → Prop) (owners : List LockOwner) (rows rows' : List LockRow) :
    Prop :=
  ∀ row' ∈ rows', row'.owner ∈ owners →
    ∃ row ∈ rows, row.owner = row'.owner ∧ Continues released row.metadata row'.metadata

/-- The owners whose PCZT is made keep their rows. One that is new has the expiry of its PCZT. -/
structure Carries (expiry : Option ℕ) (released : String → Prop) (world state : World) : Prop where
  bound : world.bound ⊆ state.bound
  rows : RowsContinue released world.bound world.rows state.rows
  made : ∀ owner ∈ state.bound, owner ∉ world.bound → ∃ height ∈ expiry, ∀ row ∈ state.rows,
    row.owner = owner → row.metadata.expiryHeight = height

variable {released : String → Prop} {owners : List LockOwner} {rows rows' rows'' : List LockRow}
  {world middle state : World} {expiry : Option ℕ} {owner : LockOwner}

theorem Continues.refl (released : String → Prop) (metadata : LockMetadata) :
    Continues released metadata metadata :=
  ⟨rfl, fun _ hdurable hoperation _ => ⟨hdurable, hoperation⟩⟩

theorem Continues.trans {old next new : LockMetadata} (h : Continues released old next)
    (h' : Continues released next new) : Continues released old new where
  expiry := h'.expiry.trans h.expiry
  signed operationId hdurable hoperation hkept := by
    obtain ⟨hdurable', hoperation'⟩ := h.signed operationId hdurable hoperation hkept
    exact h'.signed operationId hdurable' hoperation' hkept

theorem RowsContinue.of_subset (h : rows' ⊆ rows) : RowsContinue released owners rows rows' :=
  fun row hrow _ => ⟨row, h hrow, rfl, .refl released _⟩

theorem RowsContinue.trans (h : RowsContinue released owners rows rows')
    (h' : RowsContinue released owners rows' rows'') :
    RowsContinue released owners rows rows'' := by
  intro row'' hrow'' howner
  obtain ⟨row', hrow', hsame', hcontinues'⟩ := h' row'' hrow'' howner
  obtain ⟨row, hrow, hsame, hcontinues⟩ := h row' hrow' (hsame' ▸ howner)
  exact ⟨row, hrow, hsame.trans hsame', hcontinues.trans hcontinues'⟩

/-- An update of rows of these owners keeps their expiry, and keeps them signed. -/
theorem RowsContinue.update {condition : LockOwner → LockMetadata → Bool}
    {update : LockMetadata → LockMetadata}
    (hupdate : ∀ owner ∈ owners, ∀ metadata, condition owner metadata →
      Continues released metadata (update metadata)) :
    RowsContinue released owners rows (updateRows condition update rows).1 := by
  intro row' hrow' howner
  obtain ⟨row, hrow, rfl⟩ := mem_updateRows.1 hrow'
  refine ⟨row, hrow, rfl, ?_⟩
  dsimp only at howner ⊢
  split_ifs with hcondition
  · exact hupdate row.owner howner row.metadata hcondition
  · exact .refl released _

theorem Carries.of_rows (hbound : state.bound = world.bound)
    (hrows : RowsContinue released world.bound world.rows state.rows) :
    Carries expiry released world state where
  bound := hbound ▸ List.Subset.refl _
  rows := hrows
  made _ howner hnew := absurd (hbound ▸ howner) hnew

theorem Carries.refl (expiry : Option ℕ) (released : String → Prop) (world : World) :
    Carries expiry released world world :=
  .of_rows rfl (.of_subset (List.Subset.refl _))

/-! ## Operations that delete rows -/

/-- Rows are deleted at most. -/
def Shrinks (world : World) (states : List World) : Prop :=
  ∀ state ∈ states, state.bound = world.bound ∧ state.rows ⊆ world.rows

theorem Shrinks.carries {states : List World} (h : Shrinks world states) :
    ∀ state ∈ states, Carries expiry released world state :=
  fun state hstate => .of_rows (h state hstate).1 (.of_subset (h state hstate).2)

theorem Shrinks.last {states : List World} (h : Shrinks world states) :
    (world.last states).bound = world.bound ∧ (world.last states).rows ⊆ world.rows := by
  obtain hsame | hmem := @last_eq_or_mem world states
  · rw [hsame]
    exact ⟨rfl, List.Subset.refl _⟩
  · exact h _ hmem

theorem Shrinks.of_last {states : List World} (hbound : middle.bound = world.bound)
    (hrows : middle.rows ⊆ world.rows) (h : Shrinks middle states) : Shrinks world states :=
  fun state hstate =>
    ⟨(h state hstate).1.trans hbound, List.Subset.trans (h state hstate).2 hrows⟩

theorem unlock_shrinks {proposalId : ℕ} {sendFlowId : String} {allowDurable : Bool} :
    Shrinks world (unlockStoredProposalLocked proposalId sendFlowId allowDurable world) := by
  unfold unlockStoredProposalLocked
  split
  · exact nofun
  · rename_i lock _
    dsimp only
    split_ifs
    · exact nofun
    · exact nofun
    · intro state hstate
      have hremove : remove lock.owner world.rows ⊆ world.rows := List.filter_sublist.subset
      obtain hunlocking | hremoving := List.mem_append.1 hstate
      · obtain ⟨outputLocks, -, rfl⟩ := List.mem_map.1 hunlocking
        exact ⟨rfl, List.Subset.refl _⟩
      · simp only [List.mem_cons, List.not_mem_nil, or_false] at hremoving
        obtain rfl | rfl := hremoving <;> exact ⟨rfl, hremove⟩

theorem finishInner_shrinks {proposalId : ℕ} {sendFlowId : String}
    {releaseInputs allowDurable : Bool} : Shrinks world
      (finishStoredProposalInner proposalId sendFlowId releaseInputs allowDurable world) := by
  unfold finishStoredProposalInner
  split
  · exact nofun
  · dsimp only
    split_ifs
    · exact nofun
    · exact unlock_shrinks
    · exact List.forall_mem_cons.2 ⟨⟨rfl, List.Subset.refl _⟩,
        List.forall_mem_singleton.2 ⟨rfl, List.filter_sublist.subset⟩⟩

theorem discard_shrinks {proposalId : ℕ} {sendFlowId : String} :
    Shrinks world (discardStoredProposal proposalId sendFlowId world) := by
  unfold discardStoredProposal
  split
  · dsimp only
    split_ifs
    · exact List.forall_mem_cons.2 ⟨⟨rfl, List.Subset.refl _⟩, finishInner_shrinks⟩
    · exact nofun
  · exact finishInner_shrinks

theorem begin_shrinks {proposalId : ℕ} {sendFlowId : String} {live : Bool} :
    Shrinks world (beginPczt proposalId sendFlowId live world) := by
  have hfinish : Shrinks world (world.forgetProposal proposalId ::
      finishStoredProposal proposalId sendFlowId true (world.forgetProposal proposalId)) :=
    List.forall_mem_cons.2 ⟨⟨rfl, List.Subset.refl _⟩, finishInner_shrinks⟩
  unfold beginPczt
  split
  · exact nofun
  · split
    · exact nofun
    · split
      · exact nofun
      · dsimp only
        split
        · exact hfinish
        · split
          · exact List.forall_mem_singleton.2 ⟨rfl, List.Subset.refl _⟩
          · exact hfinish

theorem shutdownCleanup_shrinks {reached : List ℕ} :
    Shrinks world (shutdownCleanup reached world) := by
  induction reached generalizing world with
  | nil => exact nofun
  | cons proposalId rest ih =>
    have hone : Shrinks world (cleanupOne proposalId world) := by
      unfold cleanupOne
      split
      · exact nofun
      · exact unlock_shrinks
    intro state hstate
    rw [shutdownCleanup] at hstate
    obtain hcleaned | hrest := List.mem_append.1 hstate
    · exact hone state hcleaned
    · exact Shrinks.of_last hone.last.1 hone.last.2 ih state hrest

theorem recoverPrevious_shrinks {targetHeight : Option ℕ} :
    Shrinks world (recoverPreviousProcess targetHeight world) := by
  unfold recoverPreviousProcess
  split
  · exact nofun
  · intro state hstate
    obtain hunlocking | hremoving := List.mem_append.1 hstate
    · obtain ⟨outputLocks, -, rfl⟩ := List.mem_map.1 hunlocking
      exact ⟨rfl, List.Subset.refl _⟩
    · rw [List.mem_singleton.1 hremoving]
      exact ⟨rfl, List.filter_sublist.subset⟩

/-! ## Operations that update rows -/

theorem markRetain_continues {rows' : List LockRow}
    (h : markRetainUntilExpiry owner rows = .ok rows') :
    RowsContinue released owners rows rows' := by
  simp only [markRetainUntilExpiry, bind_eq_ok, pure_eq_ok] at h
  obtain ⟨-, -, rfl⟩ := h
  refine .update fun other _ metadata _ => ⟨rfl, fun operationId _ hoperation _ => ⟨?_, hoperation⟩⟩
  unfold LockMetadata.isDurable
  split_ifs <;> rfl

theorem checkpointOwner_continues {session : SessionId} {operationId : String}
    {rows' : List LockRow} (h : checkpointOwner session operationId rows owner = .ok rows') :
    RowsContinue released owners rows rows' := by
  simp only [checkpointOwner, bind_eq_ok, pure_eq_ok] at h
  obtain ⟨-, -, rfl⟩ := h
  refine .update fun other _ metadata hcondition => ⟨rfl, fun _ hdurable _ _ => ?_⟩
  obtain ⟨-, -, hphase⟩ := of_decide_eq_true hcondition
  simp [LockMetadata.isDurable, hphase] at hdurable

theorem releaseOperation_continues {operationId : String} (h : released operationId) :
    RowsContinue released owners rows (releaseOperation operationId rows) := by
  refine .update fun other _ metadata hcondition => ⟨rfl, fun signed _ hsigned hkept => ?_⟩
  obtain rfl := Option.some.inj (hsigned.symm.trans (of_decide_eq_true hcondition))
  exact absurd h hkept

theorem persist_continues {session : SessionId} {outputs : List OutputRef} {expiryHeight : ℕ}
    (hnew : owner ∉ owners) :
    RowsContinue released owners rows (persist session owner outputs expiryHeight rows) := by
  intro row hrow howner
  obtain hold | ⟨rfl, -⟩ := mem_persist hrow
  · exact ⟨row, hold, rfl, .refl released _⟩
  · exact absurd howner hnew

theorem updateExpiry_continues {expiryHeight : ℕ} {rows' : List LockRow} (hnew : owner ∉ owners)
    (h : updateExpiry owner expiryHeight rows = .ok rows') :
    RowsContinue released owners rows rows' := by
  simp only [updateExpiry, bind_eq_ok, pure_eq_ok] at h
  obtain ⟨-, -, rfl⟩ := h
  refine .update fun other hother _ hcondition => absurd ?_ hnew
  exact of_decide_eq_true hcondition ▸ hother

theorem expiry_of_updateExpiry {expiryHeight : ℕ} {rows' : List LockRow}
    (h : updateExpiry owner expiryHeight rows = .ok rows') :
    ∀ row ∈ rows', row.owner = owner → row.metadata.expiryHeight = expiryHeight := by
  simp only [updateExpiry, bind_eq_ok, pure_eq_ok] at h
  obtain ⟨-, -, rfl⟩ := h
  intro row hrow howner
  obtain ⟨old, -, rfl⟩ := mem_updateRows.1 hrow
  dsimp only at howner ⊢
  rw [if_pos (decide_eq_true howner)]

theorem retain_carries {proposalId : ℕ} {sendFlowId : String} :
    ∀ state ∈ retainStoredProposalLockUntilExpiry proposalId sendFlowId world,
      Carries expiry released world state := by
  unfold retainStoredProposalLockUntilExpiry
  split
  · exact nofun
  · split
    · exact nofun
    · split
      · exact nofun
      · rename_i rows hmark
        have hrows : RowsContinue released world.bound world.rows rows := markRetain_continues hmark
        dsimp only
        split
        · exact List.forall_mem_singleton.2 (.of_rows rfl hrows)
        · exact List.forall_mem_cons.2 ⟨.of_rows rfl hrows,
            List.forall_mem_singleton.2 (.of_rows rfl hrows)⟩

theorem markStarted_carries {proposalId : ℕ} {sendFlowId : String} :
    ∀ state ∈ markProposalBroadcastStarted proposalId sendFlowId world,
      Carries expiry released world state := by
  unfold markProposalBroadcastStarted
  split
  · exact nofun
  · split
    · exact nofun
    · rename_i rows hmark
      exact List.forall_mem_singleton.2 (.of_rows rfl (markRetain_continues hmark))

theorem propose_carries {sendFlowId : String} {inputs : List OutputRef} {expiryHeight : ℕ}
    {refused : Bool} (h : world.Sound) (hnew : owner ∉ world.drawn) :
    ∀ state ∈ proposeSend sendFlowId owner inputs expiryHeight refused world,
      Carries expiry released world state := by
  have hrows : RowsContinue released world.bound world.rows
      (persist world.session owner inputs expiryHeight world.rows) :=
    persist_continues fun hbound => hnew (h.disk.boundDrawn hbound)
  have hremoved : RowsContinue released world.bound world.rows
      (remove owner (persist world.session owner inputs expiryHeight world.rows)) :=
    hrows.trans (.of_subset List.filter_sublist.subset)
  unfold proposeSend
  split_ifs
  · exact nofun
  · exact List.forall_mem_cons.2 ⟨.of_rows rfl hrows,
      List.forall_mem_singleton.2 (.of_rows rfl hremoved)⟩
  · exact List.forall_mem_cons.2 ⟨.of_rows rfl hrows, List.forall_mem_cons.2
      ⟨.of_rows rfl hrows, List.forall_mem_singleton.2 (.of_rows rfl hrows)⟩⟩

/-- A failure keeps rows as far as the state before it does. -/
theorem fail_carries {proposalId : ℕ} {sendFlowId : String}
    (hbound : middle.bound = world.bound)
    (hrows : RowsContinue released world.bound world.rows middle.rows) :
    ∀ state ∈ middle :: finishStoredProposal proposalId sendFlowId true middle,
      Carries expiry released world state := by
  refine List.forall_mem_cons.2 ⟨.of_rows hbound hrows, fun state hstate => ?_⟩
  obtain ⟨hsame, hsubset⟩ := finishInner_shrinks state hstate
  exact .of_rows (hsame.trans hbound) (hrows.trans (.of_subset hsubset))

theorem finishPczt_carries {proposalId liveExpiryHeight : ℕ} {refused created : Bool}
    (h : world.Sound) :
    ∀ state ∈ finishPczt proposalId liveExpiryHeight refused created world,
      Carries (some liveExpiryHeight) released world state := by
  unfold finishPczt
  cases hentry : world.creating.find? (·.1.proposalId = proposalId) with
  | none => exact nofun
  | some entry =>
    obtain ⟨stored, owner⟩ := entry
    have hsame : RowsContinue released world.bound world.rows world.rows :=
      .of_subset (List.Subset.refl _)
    dsimp only
    split
    · exact fail_carries rfl hsame
    · rename_i current hcurrent
      split
      · exact fail_carries rfl hsame
      · rename_i hrefused
        have howner : current.owner = owner := not_not.1 fun hne => hrefused (.inl hne)
        obtain ⟨hlock, hid⟩ : current ∈ world.store.locks ∧ current.proposalId = proposalId :=
          mem_of_findLock (storedProposalLock_ok hcurrent)
        have hstored : stored.proposalId = proposalId := by simpa using List.find?_some hentry
        have hpending : current.proposalId ∈ pendingIds world.store world.creating :=
          List.mem_append_right _
            (List.mem_map.2 ⟨_, List.mem_of_find?_eq_some hentry, hstored.trans hid.symm⟩)
        have hnew : owner ∉ world.bound := howner ▸ (h.memory.live current hlock hpending).1
        split
        · exact fail_carries rfl hsame
        · rename_i rows hexpiry
          have hrows : RowsContinue released world.bound world.rows rows :=
            updateExpiry_continues hnew hexpiry
          split
          · refine List.forall_mem_cons.2 ⟨.of_rows rfl hsame, List.forall_mem_cons.2
              ⟨.of_rows rfl hrows, List.forall_mem_singleton.2 ⟨?_, hrows, ?_⟩⟩⟩
            · exact List.subset_cons_self _ _
            · intro other hother hunbound
              obtain rfl | hold := List.mem_cons.1 hother
              · exact ⟨liveExpiryHeight, rfl, expiry_of_updateExpiry hexpiry⟩
              · exact absurd hold hunbound
          · exact List.forall_mem_cons.2 ⟨.of_rows rfl hsame, fail_carries rfl hrows⟩

/-! ## Checkpoints -/

/-- The rows of an owner are those of a signed operation. -/
def SignedFor (operationId : String) (owner : LockOwner) (rows : List LockRow) : Prop :=
  ∀ row ∈ rows, row.owner = owner →
    row.metadata.isDurable ∧ row.metadata.operationId = some operationId

theorem SignedFor.continues {operationId : String} (h : SignedFor operationId owner rows)
    (hrows : RowsContinue released owners rows rows') (howner : owner ∈ owners)
    (hkept : ¬ released operationId) : SignedFor operationId owner rows' := by
  rintro row' hrow' rfl
  obtain ⟨row, hrow, hsame, hcontinues⟩ := hrows row' hrow' howner
  obtain ⟨hdurable, hoperation⟩ := h row hrow hsame
  exact hcontinues.signed operationId hdurable hoperation hkept

/-- Because the rows of an owner agree, a checkpoint takes all of them. -/
theorem signedFor_checkpointOwner {session : SessionId} {operationId : String} (hagree : Agree rows)
    (h : checkpointOwner session operationId rows owner = .ok rows') :
    Agree rows' ∧ SignedFor operationId owner rows' := by
  simp only [checkpointOwner, bind_eq_ok, ensure_eq_ok, pure_eq_ok, exists_const] at h
  obtain ⟨hupdated, rfl⟩ := h
  refine ⟨hagree.updateRows _ _, ?_⟩
  obtain ⟨taken, htaken, hcondition⟩ := List.countP_pos_iff.1 (Nat.pos_of_ne_zero hupdated)
  obtain ⟨htakenOwner, hsession, hphase⟩ := of_decide_eq_true hcondition
  intro row' hrow' howner
  obtain ⟨row, hrow, rfl⟩ := mem_updateRows.1 hrow'
  have hmetadata := hagree row hrow taken htaken (howner.trans htakenOwner.symm)
  dsimp only at howner ⊢
  rw [if_pos (decide_eq_true ⟨howner, hmetadata ▸ hsession, hmetadata ▸ hphase⟩)]
  exact ⟨rfl, rfl⟩

theorem checkpointOwners_spec {session : SessionId} {operationId : String}
    (todo : List LockOwner) (hagree : Agree rows)
    (h : todo.foldlM (checkpointOwner session operationId) rows = .ok rows') :
    (∀ owners, RowsContinue (fun _ => False) owners rows rows') ∧
      ∀ owner ∈ todo, SignedFor operationId owner rows' := by
  induction todo generalizing rows with
  | nil =>
    obtain rfl := pure_eq_ok.1 h
    exact ⟨fun _ => .of_subset (List.Subset.refl _), nofun⟩
  | cons first rest ih =>
    rw [List.foldlM_cons] at h
    obtain ⟨middle, hfirst, hrest⟩ := bind_eq_ok.1 h
    obtain ⟨hagree', hsigned⟩ := signedFor_checkpointOwner hagree hfirst
    obtain ⟨hcontinues, hothers⟩ := ih hagree' hrest
    refine ⟨fun owners => (checkpointOwner_continues hfirst).trans (hcontinues owners),
      List.forall_mem_cons.2 ⟨?_, hothers⟩⟩
    exact hsigned.continues (hcontinues [first]) List.mem_cons_self id

theorem Continues.mono {released' : String → Prop} {old new : LockMetadata}
    (h : Continues released old new) (hle : ∀ operationId, released operationId →
      released' operationId) : Continues released' old new where
  expiry := h.expiry
  signed operationId hdurable hoperation hkept :=
    h.signed operationId hdurable hoperation fun hreleased => hkept (hle operationId hreleased)

theorem RowsContinue.mono {released' : String → Prop}
    (h : RowsContinue released owners rows rows')
    (hle : ∀ operationId, released operationId → released' operationId) :
    RowsContinue released' owners rows rows' := by
  intro row' hrow' howner
  obtain ⟨row, hrow, hsame, hcontinues⟩ := h row' hrow' howner
  exact ⟨row, hrow, hsame, hcontinues.mono hle⟩

end VizorWallet.Send
