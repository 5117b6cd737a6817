import VizorWallet.Migration.Reorg.Decisions

/-!
# The children transaction of a reorg pass

## Main definitions

* `SpentOnChain` — a prepared note is spent by a child on the chain.
* `ResetsChildren` — the transaction resets a child or a prepared note.

## Main results

* `cleanUpChildren_eq` — the tables and the phase after the transaction.
* `cleanUpChildren_idem` — the transaction has no further effect when it is repeated.
-/

namespace VizorWallet.Migration.Reorg

variable {chain : ChainSnapshot}

/-- A child on the chain spends the prepared note. -/
def SpentOnChain (chain : ChainSnapshot) (children : List PendingChild) (note : PreparedNote) :
    Prop :=
  ∃ child ∈ children, child.selectedNoteTxid = note.txid ∧
    child.selectedNoteOutputIndex = note.outputIndex ∧ (chain child.txid).isSome

instance (children : List PendingChild) (note : PreparedNote) :
    Decidable (SpentOnChain chain children note) :=
  inferInstanceAs (Decidable (∃ child ∈ children, _))

/-- The children that remain when denominations are reset. -/
def remainingChildren (chain : ChainSnapshot) (txids : List Txid) (children : List PendingChild) :
    List PendingChild :=
  children.filter fun child => ¬ (child.selectedNoteTxid ∈ txids ∧ chain child.txid = none)

/-- The prepared note after denominations are reset. -/
def PreparedNote.resetIn (chain : ChainSnapshot) (txids : List Txid) (children : List PendingChild)
    (note : PreparedNote) : PreparedNote :=
  if note.txid ∈ txids ∧ ¬ SpentOnChain chain children note then note.reset else note

/-- A child or a prepared note is reset. -/
def ResetsIn (chain : ChainSnapshot) (txids : List Txid) (children : List PendingChild)
    (notes : List PreparedNote) : Prop :=
  (∃ child ∈ children, child.selectedNoteTxid ∈ txids ∧ chain child.txid = none) ∨
    ∃ note ∈ notes, note.txid ∈ txids ∧ ¬ SpentOnChain chain children note

/-! ## One denomination -/

theorem spentOnChain_remaining {txids : List Txid} {children : List PendingChild}
    {note : PreparedNote} : SpentOnChain chain (remainingChildren chain txids children) note ↔
      SpentOnChain chain children note := by
  constructor
  · rintro ⟨child, hchild, hspends⟩
    exact ⟨child, (List.mem_filter.1 hchild).1, hspends⟩
  · rintro ⟨child, hchild, htxid, hindex, hchain⟩
    refine ⟨child, List.mem_filter.2 ⟨hchild, ?_⟩, htxid, hindex, hchain⟩
    have hne : chain child.txid ≠ none := Option.isSome_iff_ne_none.1 hchain
    simp [hne]

@[simp] theorem spentOnChain_reset {children : List PendingChild} {note : PreparedNote} :
    SpentOnChain chain children note.reset ↔ SpentOnChain chain children note := Iff.rfl

theorem isReset_iff {children : List PendingChild} {note : PreparedNote} {txid : Txid} :
    note.isReset txid (includedOutputs chain children txid) ↔
      note.txid = txid ∧ ¬ SpentOnChain chain children note := by
  simp only [PreparedNote.isReset, decide_eq_true_eq]
  refine and_congr_right fun htxid => not_congr ?_
  subst htxid
  simp only [includedOutputs, SpentOnChain, List.mem_map, List.mem_filter, decide_eq_true_eq]
  constructor
  · rintro ⟨child, ⟨hchild, htxid, hchain⟩, hindex⟩
    exact ⟨child, hchild, htxid, hindex, hchain⟩
  · rintro ⟨child, hchild, htxid, hindex, hchain⟩
    exact ⟨child, ⟨hchild, htxid, hchain⟩, hindex⟩

theorem resetDenomination_children {tables : ChildReset} {txid : Txid}
    (hnodup : (tables.children.map PendingChild.txid).Nodup) :
    (resetDenomination chain tables txid).children =
      remainingChildren chain [txid] tables.children := by
  refine List.filter_congr fun child hchild => decide_eq_decide.2 (not_congr ?_)
  simp only [clearedChildren, List.mem_map, List.mem_filter, decide_eq_true_eq,
    Option.isNone_iff_eq_none, List.mem_singleton]
  constructor
  · rintro ⟨other, ⟨hother, hspends⟩, htxid⟩
    rwa [← List.inj_on_of_nodup_map hnodup hother hchild htxid]
  · exact fun hspends => ⟨child, ⟨hchild, hspends⟩, rfl⟩

theorem resetDenomination_notes {tables : ChildReset} {txid : Txid} :
    (resetDenomination chain tables txid).notes =
      tables.notes.map (PreparedNote.resetIn chain [txid] tables.children) := by
  refine List.map_congr_left fun note _ => ?_
  simp only [PreparedNote.resetIn, isReset_iff, List.mem_singleton]

theorem resetDenomination_resetAny {tables : ChildReset} {txid : Txid} :
    (resetDenomination chain tables txid).resetAny ↔
      tables.resetAny ∨ ResetsIn chain [txid] tables.children tables.notes := by
  have hcleared : (clearedChildren chain tables.children txid).isEmpty = false ↔
      ∃ child ∈ tables.children, child.selectedNoteTxid = txid ∧ chain child.txid = none := by
    simp [clearedChildren, List.isEmpty_eq_false_iff, List.filter_eq_nil_iff]
  simp only [resetDenomination, ResetsIn, Bool.or_eq_true, Bool.not_eq_true', hcleared,
    List.any_eq_true, isReset_iff, List.mem_singleton, or_assoc]

/-! ## All denominations -/

theorem resetIn_cons {txid : Txid} {txids : List Txid} {children : List PendingChild}
    (note : PreparedNote) :
    (note.resetIn chain [txid] children).resetIn chain txids
      (remainingChildren chain [txid] children) =
      note.resetIn chain (txid :: txids) children := by
  have htxid : (note.resetIn chain [txid] children).txid = note.txid := by
    unfold PreparedNote.resetIn
    split_ifs <;> rfl
  have hspent : SpentOnChain chain (remainingChildren chain [txid] children)
      (note.resetIn chain [txid] children) ↔ SpentOnChain chain children note := by
    rw [spentOnChain_remaining]
    unfold PreparedNote.resetIn
    split_ifs <;> rfl
  rw [PreparedNote.resetIn, htxid]
  simp only [hspent]
  simp only [PreparedNote.resetIn, List.mem_cons]
  by_cases h : SpentOnChain chain children note
  · simp [h]
  · by_cases hsame : note.txid = txid <;> by_cases hrest : note.txid ∈ txids <;>
      simp [h, hsame, hrest, PreparedNote.reset]

theorem remainingChildren_cons {txid : Txid} {txids : List Txid} {children : List PendingChild} :
    remainingChildren chain txids (remainingChildren chain [txid] children) =
      remainingChildren chain (txid :: txids) children := by
  rw [remainingChildren, remainingChildren, List.filter_filter, remainingChildren]
  refine List.filter_congr fun child _ => ?_
  simp only [List.mem_cons]
  by_cases hchain : chain child.txid = none <;> by_cases hsame : child.selectedNoteTxid = txid <;>
    simp [hchain, hsame]

theorem resetsIn_cons {txid : Txid} {txids : List Txid} {children : List PendingChild}
    {notes : List PreparedNote} :
    ResetsIn chain [txid] children notes ∨ ResetsIn chain txids
      (remainingChildren chain [txid] children)
      (notes.map (PreparedNote.resetIn chain [txid] children)) ↔
      ResetsIn chain (txid :: txids) children notes := by
  have htxid (note : PreparedNote) : (note.resetIn chain [txid] children).txid = note.txid := by
    unfold PreparedNote.resetIn
    split_ifs <;> rfl
  have hspent (note : PreparedNote) : SpentOnChain chain (remainingChildren chain [txid] children)
      (note.resetIn chain [txid] children) ↔ SpentOnChain chain children note := by
    rw [spentOnChain_remaining]
    unfold PreparedNote.resetIn
    split_ifs <;> rfl
  simp only [ResetsIn, List.mem_map, exists_exists_and_eq_and, htxid, hspent, List.mem_cons,
    List.not_mem_nil, or_false]
  constructor
  · rintro ((⟨child, hchild, hsame, hoff⟩ | ⟨note, hnote, hsame, hnot⟩) |
      (⟨child, hchild, hmem, hoff⟩ | ⟨note, hnote, hmem, hnot⟩))
    · exact .inl ⟨child, hchild, .inl hsame, hoff⟩
    · exact .inr ⟨note, hnote, .inl hsame, hnot⟩
    · exact .inl ⟨child, (List.mem_filter.1 hchild).1, .inr hmem, hoff⟩
    · exact .inr ⟨note, hnote, .inr hmem, hnot⟩
  · rintro (⟨child, hchild, hsame | hmem, hoff⟩ | ⟨note, hnote, hsame | hmem, hnot⟩)
    · exact .inl (.inl ⟨child, hchild, hsame, hoff⟩)
    · by_cases hsame : child.selectedNoteTxid = txid
      · exact .inl (.inl ⟨child, hchild, hsame, hoff⟩)
      · exact .inr (.inl ⟨child, List.mem_filter.2 ⟨hchild, by simp [hsame]⟩, hmem, hoff⟩)
    · exact .inl (.inr ⟨note, hnote, hsame, hnot⟩)
    · exact .inr (.inr ⟨note, hnote, hmem, hnot⟩)

/-- The rounds over several denominations reset what any of them resets. -/
theorem foldl_resetDenomination {txids : List Txid} {tables : ChildReset}
    (hnodup : (tables.children.map PendingChild.txid).Nodup) :
    (txids.foldl (resetDenomination chain) tables).children =
        remainingChildren chain txids tables.children ∧
      (txids.foldl (resetDenomination chain) tables).notes =
        tables.notes.map (PreparedNote.resetIn chain txids tables.children) ∧
      ((txids.foldl (resetDenomination chain) tables).resetAny ↔
        tables.resetAny ∨ ResetsIn chain txids tables.children tables.notes) := by
  induction txids generalizing tables with
  | nil =>
    have hid : PreparedNote.resetIn chain [] tables.children = id := by
      funext note
      simp [PreparedNote.resetIn]
    simp [remainingChildren, hid, ResetsIn]
  | cons txid rest ih =>
    have hchildren := @resetDenomination_children chain tables txid hnodup
    have hround := @ih (resetDenomination chain tables txid) (by
      rw [hchildren]
      exact hnodup.sublist (List.filter_sublist.map _))
    rw [List.foldl_cons]
    refine ⟨?_, ?_, ?_⟩
    · rw [hround.1, hchildren, remainingChildren_cons]
    · rw [hround.2.1, resetDenomination_notes, List.map_map, hchildren]
      exact List.map_congr_left fun note _ => resetIn_cons note
    · rw [hround.2.2, resetDenomination_resetAny, or_assoc, hchildren, resetDenomination_notes,
        resetsIn_cons]

/-! ## The transaction -/

/-- The denominations whose children a pass resets. -/
def affectedTxids (chain : ChainSnapshot) (stages : List Stage) : List Txid :=
  (stages.map Stage.expectedTxid).filter (· ∈ (plan chain stages).affected)

theorem mem_affectedTxids {stages : List Stage} {txid : Txid} :
    txid ∈ affectedTxids chain stages ↔ Affected chain stages txid := by
  rw [affectedTxids, List.mem_filter, decide_eq_true_iff, mem_affected, and_iff_right_iff_imp]
  rintro ⟨origin, ⟨stage, hstage, rfl, -⟩, hdescends⟩
  obtain rfl | ⟨_, -, child, hchild, -, rfl⟩ := hdescends.cases_tail
  · exact List.mem_map_of_mem hstage
  · exact List.mem_map_of_mem hchild

/-- Some child or prepared note of an affected denomination is reset. -/
def ResetsChildren (chain : ChainSnapshot) (run : Run) : Prop :=
  (∃ child ∈ run.pendingChildren, Affected chain run.stages child.selectedNoteTxid ∧
    chain child.txid = none) ∨
  ∃ note ∈ run.preparedNotes, Affected chain run.stages note.txid ∧
    ¬ SpentOnChain chain run.pendingChildren note

theorem resetsIn_affectedTxids {run : Run} :
    ResetsIn chain (affectedTxids chain run.stages) run.pendingChildren run.preparedNotes ↔
      ResetsChildren chain run := by
  simp only [ResetsIn, ResetsChildren, mem_affectedTxids]

/-- The tables, the phase and the proof height after the children transaction. -/
theorem cleanUpChildren_eq {run : Run} (hphase : run.phase.releasesWalletLocks = false)
    (hnodup : (run.pendingChildren.map PendingChild.txid).Nodup) :
    ∃ phase retry, cleanUpChildren chain (plan chain run.stages) run =
        { run with
          phase := phase
          proofRetryHeight := retry
          pendingChildren := remainingChildren chain (affectedTxids chain run.stages)
            run.pendingChildren
          preparedNotes := run.preparedNotes.map
            (PreparedNote.resetIn chain (affectedTxids chain run.stages) run.pendingChildren) } ∧
      (ResetsChildren chain run → phase = .waitingDenomConfirmations ∧ retry = none) ∧
      (¬ ResetsChildren chain run → phase = run.phase ∧ retry = run.proofRetryHeight) := by
  obtain ⟨hchildren, hnotes, hreset⟩ := @foldl_resetDenomination chain
    (affectedTxids chain run.stages) ⟨run.pendingChildren, run.preparedNotes, false⟩ hnodup
  simp only [Bool.false_eq_true, false_or, resetsIn_affectedTxids] at hreset
  let tables := (affectedTxids chain run.stages).foldl (resetDenomination chain)
    ⟨run.pendingChildren, run.preparedNotes, false⟩
  refine ⟨if tables.resetAny then .waitingDenomConfirmations else run.phase,
    if tables.resetAny then none else run.proofRetryHeight, ?_,
    fun h => ⟨if_pos (hreset.2 h), if_pos (hreset.2 h)⟩,
    fun h => ⟨if_neg (mt hreset.1 h), if_neg (mt hreset.1 h)⟩⟩
  rw [cleanUpChildren, resetMigrationChildrenForReorgedDenominations, if_neg (by simp [hphase]),
    ← hchildren, ← hnotes]
  rfl

end VizorWallet.Migration.Reorg
