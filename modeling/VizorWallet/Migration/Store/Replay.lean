import VizorWallet.Migration.Store.Expiry
import VizorWallet.Migration.Store.Receipts

/-!
# Receipts that are applied twice

The native outbox keeps a receipt until it is acknowledged, so the wallet may apply it again. The
second time, a moved peer is where the receipt has put it. A peer that the receipt has marked for
re-signing is not: it kept its old height, and the receipt is refused.

## Main definitions

* `PendingTx.updated` — a row after the schedule update that names it.
* `MigrationOutboxScheduleUpdate.Keeps` — the update leaves the signed expiry of a row in place.

## Main results

* `applyUpdates_spec` — what a batch of updates does to the rows.
* `receipt_replays_iff` — when an accepted receipt can be applied again.
-/

namespace VizorWallet.Migration.Store

open Reorg (Txid)

/-- The row has the height and the start of the update. -/
def PendingTx.Carries (row : PendingTx) (update : MigrationOutboxScheduleUpdate) : Prop :=
  row.scheduledHeight = some update.scheduledHeight ∧
    row.scheduleStartHeight = some update.scheduleStartHeight

/-- A row after the update that names it. -/
def PendingTx.updated (row : PendingTx) (update : MigrationOutboxScheduleUpdate) : PendingTx :=
  if row.status = .scheduled then
    if Canonical update.scheduledHeight row.expiryHeight then
      { row with
        scheduledHeight := some update.scheduledHeight
        scheduleStartHeight := some update.scheduleStartHeight }
    else { row with status := .needsResign }
  else row

/-- A row after all updates. -/
def PendingTx.amended (updates : List MigrationOutboxScheduleUpdate) (row : PendingTx) :
    PendingTx :=
  (updates.find? (·.itemId = row.txid)).elim row row.updated

variable {rows rows' : List PendingTx} {update : MigrationOutboxScheduleUpdate}
  {updates : List MigrationOutboxScheduleUpdate} {row : PendingTx} {crossed crossed' : Bool}

theorem updated_txid : (row.updated update).txid = row.txid := by
  unfold PendingTx.updated
  split_ifs <;> rfl

theorem updated_partIndex : (row.updated update).partIndex = row.partIndex := by
  unfold PendingTx.updated
  split_ifs <;> rfl

theorem amended_txid : (row.amended updates).txid = row.txid := by
  unfold PendingTx.amended
  cases updates.find? (·.itemId = row.txid) with
  | none => rfl
  | some update => exact updated_txid

theorem amended_partIndex : (row.amended updates).partIndex = row.partIndex := by
  unfold PendingTx.amended
  cases updates.find? (·.itemId = row.txid) with
  | none => rfl
  | some update => exact updated_partIndex

/-! ## One update -/

/-- An update names a row; a row that is not scheduled any more has its height already. -/
structure Applies (rows : List PendingTx) (update : MigrationOutboxScheduleUpdate)
    (row : PendingTx) : Prop where
  mem : row ∈ rows
  txid : row.txid = update.itemId
  carries : row.status ≠ .scheduled → row.Carries update
  expiry : ∃ expiry, zip318CanonicalMigrationExpiryHeight update.scheduledHeight = .ok expiry

theorem map_updated_of_applies (hkeyed : Keyed rows) (h : Applies rows update row)
    {changed : PendingTx → PendingTx} (hchanged : changed row = row.updated update) :
    updateWhere (·.txid = update.itemId) changed rows =
      rows.map fun other => if other.txid = update.itemId then other.updated update else other := by
  refine List.map_congr_left fun other hother => ?_
  simp only [decide_eq_true_eq]
  split_ifs with htxid
  · have hsame : other = row :=
      List.inj_on_of_nodup_map hkeyed.txids hother h.mem (htxid.trans h.txid.symm)
    rw [hsame, hchanged]
  · rfl

theorem applyUpdate_spec (hkeyed : Keyed rows)
    (h : applyUpdate (rows, crossed) update = .ok (rows', crossed')) :
    (∃ row, Applies rows update row) ∧
      rows' = rows.map fun row =>
        if row.txid = update.itemId then row.updated update else row := by
  simp only [applyUpdate, bind_eq_ok, orError_eq_ok] at h
  obtain ⟨row, hfind, expiry, hexpiry, hresult⟩ := h
  have hmem := List.mem_of_find?_eq_some hfind
  have htxid : row.txid = update.itemId := by simpa using List.find?_some hfind
  split_ifs at hresult with hstatus hcross
  · obtain ⟨rfl, -⟩ := Prod.mk.inj (pure_eq_ok.1 hresult)
    have happlies : Applies rows update row := ⟨hmem, htxid, absurd hstatus, expiry, hexpiry⟩
    refine ⟨⟨row, happlies⟩, map_updated_of_applies hkeyed happlies ?_⟩
    have hnot : ¬Canonical update.scheduledHeight row.expiryHeight := fun hcanonical =>
      hcross (Except.ok.inj (hexpiry.symm.trans hcanonical))
    rw [PendingTx.updated, if_pos hstatus, if_neg hnot]
  · obtain ⟨rfl, -⟩ := Prod.mk.inj (pure_eq_ok.1 hresult)
    have happlies : Applies rows update row := ⟨hmem, htxid, absurd hstatus, expiry, hexpiry⟩
    refine ⟨⟨row, happlies⟩, map_updated_of_applies hkeyed happlies ?_⟩
    have hcanonical : Canonical update.scheduledHeight row.expiryHeight :=
      hexpiry.trans (congrArg _ (not_not.1 hcross))
    rw [PendingTx.updated, if_pos hstatus, if_pos hcanonical]
  · simp only [bind_eq_ok, ensure_eq_ok, exists_const, pure_eq_ok, Prod.mk.injEq] at hresult
    obtain ⟨hcarries, rfl, -⟩ := hresult
    have happlies : Applies rows update row := ⟨hmem, htxid, fun _ => hcarries, expiry, hexpiry⟩
    refine ⟨⟨row, happlies⟩, ?_⟩
    have hchanged : id row = row.updated update := by
      rw [PendingTx.updated, if_neg hstatus]
      rfl
    rw [← map_updated_of_applies hkeyed happlies hchanged, updateWhere]
    simp

/-! ## A batch of updates -/

theorem updated_keyed (hkeyed : Keyed rows) : Keyed (rows.map fun row =>
    if row.txid = update.itemId then row.updated update else row) := by
  refine hkeyed.of_columns ?_ ?_
  · rw [List.map_map]
    refine List.map_congr_left fun row _ => ?_
    rw [Function.comp_apply]
    split_ifs
    · exact updated_txid
    · rfl
  · rw [List.map_map]
    refine List.map_congr_left fun row _ => ?_
    rw [Function.comp_apply]
    split_ifs
    · exact updated_partIndex
    · rfl

theorem amended_cons (hnew : update.itemId ∉ updates.map (·.itemId)) :
    row.amended (update :: updates) =
      (if row.txid = update.itemId then row.updated update else row).amended updates := by
  unfold PendingTx.amended
  split_ifs with htxid
  · have hnone : updates.find? (·.itemId = (row.updated update).txid) = none := by
      rw [updated_txid, htxid, List.find?_eq_none]
      intro other hother
      simp only [decide_eq_true_eq]
      exact fun heq => hnew (List.mem_map.2 ⟨other, hother, heq⟩)
    rw [List.find?_cons_of_pos (by simp [htxid]), hnone]
    rfl
  · rw [List.find?_cons_of_neg (by simpa using Ne.symm htxid)]

/-- A batch updates every row that it names, and each update applies to the rows before the
batch. -/
theorem applyUpdates_spec (hkeyed : Keyed rows) (hnodup : (updates.map (·.itemId)).Nodup)
    (h : updates.foldlM applyUpdate (rows, crossed) = .ok (rows', crossed')) :
    rows' = rows.map (PendingTx.amended updates) ∧
      ∀ update ∈ updates, ∃ row, Applies rows update row := by
  induction updates generalizing rows crossed with
  | nil =>
    obtain ⟨rfl, -⟩ := Prod.mk.inj (pure_eq_ok.1 h)
    exact ⟨(List.map_id _).symm, nofun⟩
  | cons update updates ih =>
    rw [List.foldlM_cons, bind_eq_ok] at h
    obtain ⟨⟨first, flag⟩, hfirst, hrest⟩ := h
    obtain ⟨hnew, hnodup⟩ := List.nodup_cons.1 hnodup
    obtain ⟨happlies, rfl⟩ := applyUpdate_spec hkeyed hfirst
    obtain ⟨hrows, hupdates⟩ := ih (updated_keyed hkeyed) hnodup hrest
    refine ⟨?_, List.forall_mem_cons.2 ⟨happlies, fun other hother => ?_⟩⟩
    · rw [hrows, List.map_map]
      exact List.map_congr_left fun row _ => (amended_cons hnew).symm
    · -- A row that another update names is the row before this one.
      obtain ⟨row, hmem, htxid, hcarries, hexpiry⟩ := hupdates other hother
      obtain ⟨old, hold, rfl⟩ := List.mem_map.1 hmem
      have hne : old.txid ≠ update.itemId := by
        intro heq
        rw [if_pos heq, updated_txid, heq] at htxid
        exact hnew (List.mem_map.2 ⟨other, hother, htxid.symm⟩)
      rw [if_neg hne] at htxid hcarries
      exact ⟨old, hold, htxid, hcarries, hexpiry⟩

/-- An update that has nothing left to do for the row that it names. -/
structure Idle (rows : List PendingTx) (update : MigrationOutboxScheduleUpdate)
    (row : PendingTx) : Prop where
  applies : Applies rows update row
  carries : row.Carries update
  canonical : row.status = .scheduled → Canonical update.scheduledHeight row.expiryHeight

theorem applyUpdate_idle (hkeyed : Keyed rows) (h : Idle rows update row) :
    applyUpdate (rows, crossed) update = .ok (rows, crossed) := by
  have hfind : rows.find? (·.txid = update.itemId) = some row := by
    obtain ⟨other, hother⟩ : ∃ other, rows.find? (·.txid = update.itemId) = some other := by
      rw [← Option.isSome_iff_exists, List.find?_isSome]
      exact ⟨row, h.applies.mem, by simp [h.applies.txid]⟩
    rw [hother, hkeyed.eq_of_find hother h.applies.mem h.applies.txid]
  obtain ⟨expiry, hexpiry⟩ := h.applies.expiry
  have happly : applyUpdate (rows, crossed) update = do
      if row.status = .scheduled then
        if expiry ≠ row.expiryHeight then
          return (updateWhere (·.txid = update.itemId) ({ · with status := .needsResign }) rows,
            true)
        else
          return (updateWhere (·.txid = update.itemId) ({ · with
            scheduledHeight := some update.scheduledHeight
            scheduleStartHeight := some update.scheduleStartHeight }) rows, crossed)
      else do
        ensure (row.scheduledHeight = some update.scheduledHeight ∧
            row.scheduleStartHeight = some update.scheduleStartHeight)
          s!"Migration outbox schedule item {update.itemId} is no longer scheduled"
        return (rows, crossed) := by
    simp only [applyUpdate, hfind, hexpiry, orError_some, ok_bind]
  rw [happly]
  split_ifs with hstatus hcross
  · have hcanonical := h.canonical hstatus
    exact absurd (Except.ok.inj (hexpiry.symm.trans hcanonical)) hcross
  · have hkept : updateWhere (·.txid = update.itemId) (fun other => { other with
        scheduledHeight := some update.scheduledHeight
        scheduleStartHeight := some update.scheduleStartHeight }) rows = rows := by
      refine (List.map_congr_left fun other hother => ?_).trans (List.map_id rows)
      simp only [decide_eq_true_eq]
      split_ifs with htxid
      · have hsame : other = row := List.inj_on_of_nodup_map hkeyed.txids hother h.applies.mem
          (htxid.trans h.applies.txid.symm)
        rw [hsame, ← h.carries.1, ← h.carries.2]
        rfl
      · rfl
    rw [hkept]
    rfl
  · have hcarries : row.scheduledHeight = some update.scheduledHeight ∧
        row.scheduleStartHeight = some update.scheduleStartHeight := h.carries
    rw [ensure_of _ hcarries]
    rfl

theorem applyUpdates_idle (hkeyed : Keyed rows)
    (h : ∀ update ∈ updates, ∃ row, Idle rows update row) :
    updates.foldlM applyUpdate (rows, crossed) = .ok (rows, crossed) := by
  induction updates with
  | nil => rfl
  | cons update updates ih =>
    obtain ⟨⟨row, hrow⟩, hrest⟩ := List.forall_mem_cons.1 h
    rw [List.foldlM_cons, applyUpdate_idle hkeyed hrow]
    exact ih hrest

/-! ## The checks of a receipt -/

variable {txid : Txid} {remoteHeight : ℕ} {run run' : Run}

/-- The updates of a valid receipt name different rows, which are not the accepted one, and move
them above the receipt height. -/
theorem validateUpdates_spec {timingMaxBlocks previous : ℕ} {seen : List Txid}
    (hprevious : remoteHeight ≤ previous)
    (h : validateUpdates txid remoteHeight timingMaxBlocks seen previous updates = .ok ()) :
    (updates.map (·.itemId)).Nodup ∧ ∀ update ∈ updates, update.itemId ∉ seen ∧
      update.itemId ≠ txid ∧ remoteHeight < update.scheduledHeight := by
  induction updates generalizing seen previous with
  | nil => exact ⟨List.nodup_nil, nofun⟩
  | cons update updates ih =>
    simp only [validateUpdates, bind_eq_ok, ensure_eq_ok, exists_const, checkedSub,
      pure_eq_ok] at h
    obtain ⟨htxid, hseen, -, delay, ⟨hle, rfl⟩, ⟨hpositive, -⟩, hrest⟩ := h
    have habove : remoteHeight < update.scheduledHeight := by omega
    obtain ⟨hnodup, hupdates⟩ := ih habove.le hrest
    refine ⟨List.nodup_cons.2 ⟨fun hmem => ?_, hnodup⟩,
      List.forall_mem_cons.2 ⟨⟨hseen, htxid, habove⟩, fun other hother => ?_⟩⟩
    · obtain ⟨other, hother, heq⟩ := List.mem_map.1 hmem
      exact (hupdates other hother).1 (heq ▸ List.mem_cons_self)
    · obtain ⟨hnot, hrest⟩ := hupdates other hother
      exact ⟨fun hmem => hnot (List.mem_cons_of_mem _ hmem), hrest⟩

/-- The row of the accepted transaction. -/
def PendingTx.accept (txid : Txid) (row : PendingTx) : PendingTx :=
  if row.txid = txid ∧ (row.status = .scheduled ∨ row.status = .needsResign) then
    { row with status := .broadcasted }
  else row

/-- What a receipt that is applied has checked and done. -/
structure Accepts (txid : Txid) (remoteHeight : ℕ) (updates : List MigrationOutboxScheduleUpdate)
    (run run' : Run) (accepted : PendingTx) : Prop where
  mem : accepted ∈ run.pending
  named : accepted.txid = txid
  valid : validateUpdates txid remoteHeight
    (scheduleParametersWithPolicy run.network run.timingPolicy).2 [] remoteHeight updates = .ok ()
  complete : accepted.status = .scheduled → ∀ peer, peer ∈ updates.map (·.itemId) ↔
    peer ∈ overduePeers run txid remoteHeight
  applies : ∀ update ∈ updates, ∃ row, Applies run.pending update row
  pending : run'.pending = run.pending.map fun row => (row.amended updates).accept txid
  policy : run'.network = run.network ∧ run'.timingPolicy = run.timingPolicy

theorem amended_perm {updates' : List MigrationOutboxScheduleUpdate}
    (hperm : updates.Perm updates') (hnodup : (updates.map (·.itemId)).Nodup) :
    row.amended updates = row.amended updates' := by
  have hnodup' : (updates'.map (·.itemId)).Nodup := (hperm.map _).nodup_iff.1 hnodup
  have hfind : updates.find? (·.itemId = row.txid) = updates'.find? (·.itemId = row.txid) := by
    cases h : updates.find? (·.itemId = row.txid) with
    | none =>
      rw [eq_comm, List.find?_eq_none]
      exact fun other hother => List.find?_eq_none.1 h other (hperm.mem_iff.2 hother)
    | some update =>
      cases h' : updates'.find? (·.itemId = row.txid) with
      | none =>
        exact absurd (List.find?_some h) (List.find?_eq_none.1 h' update
          (hperm.mem_iff.1 (List.mem_of_find?_eq_some h)))
      | some update' =>
        have hid : update.itemId = row.txid := by simpa using List.find?_some h
        have hid' : update'.itemId = row.txid := by simpa using List.find?_some h'
        exact congrArg some (List.inj_on_of_nodup_map hnodup' (hperm.mem_iff.1
          (List.mem_of_find?_eq_some h)) (List.mem_of_find?_eq_some h') (hid.trans hid'.symm))
  rw [PendingTx.amended, PendingTx.amended, hfind]

theorem accepts_of_apply (hkeyed : run.Keyed)
    (h : applyAcceptedMigrationOutboxReceipt txid remoteHeight updates run = .ok run') :
    ∃ accepted, Accepts txid remoteHeight updates run run' accepted := by
  simp only [applyAcceptedMigrationOutboxReceipt, bind_eq_ok, orError_eq_ok, ensure_eq_ok] at h
  obtain ⟨accepted, hfind, ⟨⟩, hvalid, ⟨⟩, hcomplete, ⟨pending, crossed⟩, hfold, hresult⟩ := h
  have hmem := List.mem_of_find?_eq_some hfind
  have htxid : accepted.txid = txid := by simpa using List.find?_some hfind
  obtain ⟨hnodup, hupdates⟩ := validateUpdates_spec le_rfl hvalid
  have hperm := List.mergeSort_perm updates (·.itemId ≤ ·.itemId)
  have hnodup' := (hperm.map (·.itemId)).nodup_iff.2 hnodup
  obtain ⟨rfl, happlies⟩ := applyUpdates_spec hkeyed hnodup' hfold
  have hamended : (run.pending.map (PendingTx.amended (updates.mergeSort (·.itemId ≤ ·.itemId)))) =
      run.pending.map (PendingTx.amended updates) :=
    List.map_congr_left fun row _ => amended_perm hperm hnodup'
  refine ⟨accepted, hmem, htxid, hvalid, fun hstatus peer => ?_,
    fun update hupdate => happlies update (hperm.mem_iff.2 hupdate), ?_, ?_⟩
  · have hpeers := Finset.ext_iff.1 (hcomplete hstatus) peer
    rwa [List.mem_toFinset, List.mem_toFinset] at hpeers
  · have hidle : ∀ row ∈ run.pending, row.txid = txid →
        (row.amended updates) = row ∧ row = accepted := by
      intro row hrow hrowTxid
      have hnone : updates.find? (·.itemId = row.txid) = none := by
        rw [List.find?_eq_none]
        intro update hupdate
        simp only [decide_eq_true_eq]
        exact fun heq => (hupdates update hupdate).2.1 (heq.trans hrowTxid)
      refine ⟨by rw [PendingTx.amended, hnone]; rfl, ?_⟩
      exact List.inj_on_of_nodup_map hkeyed.txids hrow hmem (hrowTxid.trans htxid.symm)
    dsimp only at hresult
    rw [hamended] at hresult
    generalize (if crossed = true then Phase.readyToMigrate else run.phase) = phase at hresult
    split_ifs at hresult with hstatus
    all_goals obtain rfl := pure_eq_ok.1 hresult
    · rw [updateRunAfterPendingBroadcast_pending, updateWhere, List.map_map]
      refine List.map_congr_left fun row _ => ?_
      rw [Function.comp_apply, PendingTx.accept]
      simp only [decide_eq_true_eq]
    · refine List.map_congr_left fun row hrow => ?_
      rw [PendingTx.accept, if_neg]
      rintro ⟨hrowTxid, hrowStatus⟩
      rw [amended_txid] at hrowTxid
      obtain ⟨hsame, rfl⟩ := hidle row hrow hrowTxid
      rw [hsame] at hrowStatus
      exact hstatus hrowStatus
  · dsimp only at hresult
    split_ifs at hresult
    all_goals
      obtain rfl := pure_eq_ok.1 hresult
      exact ⟨rfl, rfl⟩

/-! ## Replays -/

/-- The update leaves a scheduled row with the expiry that it was signed with, or asks for what the
row has. -/
def MigrationOutboxScheduleUpdate.Keeps (update : MigrationOutboxScheduleUpdate) (row : PendingTx) :
    Prop :=
  row.status = .scheduled →
    Canonical update.scheduledHeight row.expiryHeight ∨ row.Carries update

theorem amended_of_mem (hnodup : (updates.map (·.itemId)).Nodup) (hupdate : update ∈ updates)
    (htxid : row.txid = update.itemId) : row.amended updates = row.updated update := by
  obtain ⟨found, hfound⟩ : ∃ found, updates.find? (·.itemId = row.txid) = some found := by
    rw [← Option.isSome_iff_exists, List.find?_isSome]
    exact ⟨update, hupdate, by simp [htxid]⟩
  have hid : found.itemId = row.txid := by simpa using List.find?_some hfound
  have hsame : found = update := List.inj_on_of_nodup_map hnodup
    (List.mem_of_find?_eq_some hfound) hupdate (hid.trans htxid)
  rw [PendingTx.amended, hfound, hsame]
  rfl

theorem accept_txid : (row.accept txid).txid = row.txid := by
  unfold PendingTx.accept
  split_ifs <;> rfl

theorem accept_partIndex : (row.accept txid).partIndex = row.partIndex := by
  unfold PendingTx.accept
  split_ifs <;> rfl

theorem accept_of_ne (h : row.txid ≠ txid) : row.accept txid = row := by
  rw [PendingTx.accept, if_neg]
  exact fun hrow => h hrow.1

section Accepted

variable {accepted : PendingTx} (h : Accepts txid remoteHeight updates run run' accepted)

include h

theorem Accepts.keyed (hkeyed : run.Keyed) : run'.Keyed := by
  refine hkeyed.of_columns ?_ ?_
  · rw [h.pending, List.map_map]
    exact List.map_congr_left fun row _ => accept_txid.trans amended_txid
  · rw [h.pending, List.map_map]
    exact List.map_congr_left fun row _ => accept_partIndex.trans amended_partIndex

/-- A row that an update names becomes what the update makes of it. -/
theorem Accepts.updated_mem (hupdate : update ∈ updates) (hrow : row ∈ run.pending)
    (htxid : row.txid = update.itemId) : row.updated update ∈ run'.pending := by
  obtain ⟨hnodup, hupdates⟩ := validateUpdates_spec le_rfl h.valid
  rw [h.pending]
  refine List.mem_map.2 ⟨row, hrow, ?_⟩
  have hne : (row.updated update).txid ≠ txid := by
    rw [updated_txid, htxid]
    exact (hupdates update hupdate).2.1
  rw [amended_of_mem hnodup hupdate htxid, accept_of_ne hne]

/-- The accepted row itself has no update. -/
theorem Accepts.accept_mem : accepted.accept txid ∈ run'.pending := by
  obtain ⟨-, hupdates⟩ := validateUpdates_spec le_rfl h.valid
  have hnone : updates.find? (·.itemId = accepted.txid) = none := by
    rw [List.find?_eq_none]
    intro update hupdate
    simp only [decide_eq_true_eq]
    exact fun heq => (hupdates update hupdate).2.1 (heq.trans h.named)
  have hamended : accepted.amended updates = accepted := by
    rw [PendingTx.amended, hnone]
    rfl
  rw [h.pending]
  exact List.mem_map.2 ⟨accepted, h.mem, by rw [hamended]⟩

/-- After a receipt the other rows are above its height, if it found its own row scheduled. -/
theorem Accepts.peer_above (hscheduled : accepted.status = .scheduled) {peer : PendingTx}
    (hpeer : peer ∈ run'.pending) (hne : peer.txid ≠ txid) (hstatus : peer.status = .scheduled)
    (hexpiry : remoteHeight < peer.expiryHeight) {height : ℕ}
    (hheight : peer.scheduledHeight = some height) : remoteHeight < height := by
  obtain ⟨hnodup, hupdates⟩ := validateUpdates_spec le_rfl h.valid
  rw [h.pending] at hpeer
  obtain ⟨row, hrow, rfl⟩ := List.mem_map.1 hpeer
  rw [accept_txid, amended_txid] at hne
  rw [accept_of_ne (amended_txid.trans_ne hne)] at hstatus hexpiry hheight
  by_cases hnamed : row.txid ∈ updates.map (·.itemId)
  · obtain ⟨update, hupdate, htxid⟩ := List.mem_map.1 hnamed
    rw [amended_of_mem hnodup hupdate htxid.symm] at hstatus hheight
    have habove := (hupdates update hupdate).2.2
    unfold PendingTx.updated at hstatus hheight
    split_ifs at hstatus hheight with hrowStatus hcanonical
    · obtain rfl := Option.some.inj hheight
      exact habove
    · exact absurd hstatus hrowStatus
  · -- A row without an update was not overdue.
    have hnone : updates.find? (·.itemId = row.txid) = none := by
      rw [List.find?_eq_none]
      intro update hupdate
      simp only [decide_eq_true_eq]
      exact fun heq => hnamed (List.mem_map.2 ⟨update, hupdate, heq⟩)
    have hamended : row.amended updates = row := by
      rw [PendingTx.amended, hnone]
      rfl
    rw [hamended] at hstatus hexpiry hheight
    by_contra hdue
    refine hnamed ((h.complete hscheduled row.txid).2 (List.mem_map.2 ⟨row, ?_, rfl⟩))
    rw [List.mem_filter]
    refine ⟨hrow, decide_eq_true ⟨hstatus, ?_, hexpiry, hne⟩⟩
    rw [PendingTx.dueAt, hheight]
    exact decide_eq_true (Nat.not_lt.1 hdue)

/-- An update that keeps its row has nothing left to do. -/
theorem Accepts.idle (hkeeps : ∀ update ∈ updates, ∀ row ∈ run.pending,
    row.txid = update.itemId → update.Keeps row) (hupdate : update ∈ updates) :
    ∃ row, Idle run'.pending update row := by
  obtain ⟨row, hrow, htxid, hcarries, hexpiry⟩ := h.applies update hupdate
  have hmem := h.updated_mem hupdate hrow htxid
  have hkept := hkeeps update hupdate row hrow htxid
  have hmoved : (row.updated update).Carries update ∧
      ((row.updated update).status = .scheduled →
        Canonical update.scheduledHeight (row.updated update).expiryHeight) := by
    unfold PendingTx.updated
    split_ifs with hstatus hcanonical
    · exact ⟨⟨rfl, rfl⟩, fun _ => hcanonical⟩
    · exact ⟨(hkept hstatus).resolve_left hcanonical, nofun⟩
    · exact ⟨hcarries hstatus, fun hscheduled => absurd hscheduled hstatus⟩
  exact ⟨row.updated update, ⟨hmem, updated_txid.trans htxid, fun _ => hmoved.1, hexpiry⟩,
    hmoved.1, hmoved.2⟩

theorem Accepts.status (hstatus : accepted.status ≠ .confirmed) :
    (accepted.accept txid).status = .broadcasted := by
  unfold PendingTx.accept
  split_ifs with hcondition
  · rfl
  · cases hcase : accepted.status with
    | scheduled => exact absurd ⟨h.named, .inl hcase⟩ hcondition
    | needsResign => exact absurd ⟨h.named, .inr hcase⟩ hcondition
    | broadcasted => rfl
    | confirmed => exact absurd hcase hstatus

theorem Accepts.replay (hkeyed : run.Keyed) (hkeeps : ∀ update ∈ updates, ∀ row ∈ run.pending,
    row.txid = update.itemId → update.Keeps row) :
    applyAcceptedMigrationOutboxReceipt txid remoteHeight updates run' = .ok run' := by
  have hkeyed' := h.keyed hkeyed
  have hsettled : ¬((accepted.accept txid).status = .scheduled ∨
      (accepted.accept txid).status = .needsResign) := by
    by_cases hstatus : accepted.status = .confirmed
    · have hsame : accepted.accept txid = accepted := by
        rw [PendingTx.accept, if_neg]
        simp [hstatus]
      simp [hsame, hstatus]
    · simp [h.status hstatus]
  have hfind : run'.pending.find? (·.txid = txid) = some (accepted.accept txid) := by
    obtain ⟨other, hother⟩ : ∃ other, run'.pending.find? (·.txid = txid) = some other := by
      rw [← Option.isSome_iff_exists, List.find?_isSome]
      exact ⟨_, h.accept_mem, by simp [accept_txid, h.named]⟩
    rw [hother, hkeyed'.eq_of_find hother h.accept_mem (accept_txid.trans h.named)]
  have hfold : (updates.mergeSort (·.itemId ≤ ·.itemId)).foldlM applyUpdate (run'.pending, false) =
      .ok (run'.pending, false) :=
    applyUpdates_idle hkeyed' fun update hupdate =>
      h.idle hkeeps (List.mem_mergeSort.1 hupdate)
  have hvalid := h.valid
  rw [← h.policy.1, ← h.policy.2] at hvalid
  simp only [applyAcceptedMigrationOutboxReceipt, hfind, orError_some, ok_bind, hvalid]
  rw [ensure_of _ fun hstatus => absurd (Or.inl hstatus) hsettled, ok_bind, hfold, ok_bind]
  dsimp only
  rw [if_neg hsettled, if_neg Bool.false_ne_true]
  rfl

end Accepted

/-- A receipt that is refused changes nothing. One that is applied leaves its transaction
broadcasted or confirmed, and, if it was scheduled, every other unexpired part above the receipt
height. It can be applied again without effect exactly if no update moves a scheduled part to a
height that its signed expiry does not belong to. -/
theorem receipt_replays_iff (txid : Txid) (remoteHeight : ℕ)
    (updates : List MigrationOutboxScheduleUpdate) {run : Run} (hkeyed : run.Keyed) :
    (∀ error, applyAcceptedMigrationOutboxReceipt txid remoteHeight updates run = .error error →
      (commitResult run (applyAcceptedMigrationOutboxReceipt txid remoteHeight updates run)).1 =
        run) ∧
    ∀ run', applyAcceptedMigrationOutboxReceipt txid remoteHeight updates run = .ok run' →
      (∃ accepted ∈ run.pending, accepted.txid = txid ∧
        (∃ row ∈ run'.pending, row.txid = txid ∧
          row.status = if accepted.status = .confirmed then .confirmed else .broadcasted) ∧
        (accepted.status = .scheduled → ∀ row ∈ run'.pending, row.txid ≠ txid →
          row.status = .scheduled → remoteHeight < row.expiryHeight →
            ∀ height, row.scheduledHeight = some height → remoteHeight < height)) ∧
      (applyAcceptedMigrationOutboxReceipt txid remoteHeight updates run' = .ok run' ↔
        ∀ update ∈ updates, ∀ row ∈ run.pending, row.txid = update.itemId → update.Keeps row) := by
  refine ⟨fun error herror => by rw [herror]; rfl, fun run' hrun' => ?_⟩
  obtain ⟨accepted, h⟩ := accepts_of_apply hkeyed hrun'
  refine ⟨⟨accepted, h.mem, h.named, ⟨_, h.accept_mem, accept_txid.trans h.named, ?_⟩,
    fun hscheduled peer hpeer hne hstatus hexpiry height hheight =>
      h.peer_above hscheduled hpeer hne hstatus hexpiry hheight⟩, fun hreplay => ?_,
    h.replay hkeyed⟩
  · split_ifs with hstatus
    · rw [PendingTx.accept, if_neg (by simp [hstatus])]
      exact hstatus
    · exact h.status hstatus
  · intro update hupdate row hrow htxid hstatus
    by_contra hcross
    obtain ⟨hcanonical, hcarries⟩ := not_or.1 hcross
    obtain ⟨_, hagain⟩ := accepts_of_apply (h.keyed hkeyed) hreplay
    obtain ⟨row', hrow', htxid', hcarries', -⟩ := hagain.applies update hupdate
    have hmem := h.updated_mem hupdate hrow htxid
    have hsame : row.updated update = row' := List.inj_on_of_nodup_map (h.keyed hkeyed).txids hmem
      hrow' (updated_txid.trans (htxid.trans htxid'.symm))
    have hmarked : row.updated update = { row with status := .needsResign } := by
      rw [PendingTx.updated, if_pos hstatus, if_neg hcanonical]
    rw [← hsame, hmarked] at hcarries'
    exact hcarries (hcarries' nofun)

/-! ## Samples -/

/-- A run of two parts at the end of a bucket, before its parts are inserted. -/
def bucketRun : Run :=
  { readyRun with
    targetValues := [100, 100]
    schedule := [⟨some 0, 100, 8⟩, ⟨some 1, 100, 9⟩] }

def bucketPart (txid : Txid) (partIndex scheduledHeight : ℕ) : PendingMigrationTxInsert where
  partIndex := partIndex
  txid := txid
  rawTx := []
  targetHeight := 34550
  anchorBoundaryHeight := some 34500
  expiryHeight := 69120
  scheduledHeight := scheduledHeight
  value := 100
  fee := 10
  selectedNote := ("aa", partIndex)

def bucketRow (txid : Txid) (partIndex scheduledHeight : ℕ) : PendingTx :=
  (bucketPart txid partIndex scheduledHeight).row "raw" 34549

/-- The run with its two parts. -/
def scheduledRun : Run :=
  { bucketRun with
    phase := .broadcastScheduled
    signedScheduleOriginHeight := some 34549
    pending := [bucketRow "c0" 0 34557, bucketRow "c1" 1 34558] }

theorem validate_bucketRun : validateScheduleWithPolicy bucketRun.schedule bucketRun.targetValues
    bucketRun.network bucketRun.timingPolicy = .ok () := by
  have hcount : bucketRun.schedule.length = bucketRun.targetValues.length := rfl
  have hvalues : (bucketRun.schedule.map (·.value)).mergeSort = bucketRun.targetValues.mergeSort :=
    rfl
  rw [validateScheduleWithPolicy, ensure_of _ hcount, ok_bind, ensure_of _ hvalues, ok_bind]
  rfl

theorem reachable_scheduledRun : (system bucketRun).Reachable scheduledRun := by
  have hinsert : insertPendingTxsWithTx sampleKey []
      [bucketPart "c0" 0 34557, bucketPart "c1" 1 34558] bucketRun = .ok scheduledRun := by
    unfold insertPendingTxsWithTx
    dsimp only
    rw [if_neg (by decide), validate_bucketRun, ok_bind]
    rfl
  refine Transition.Reaches.step (e := .insert sampleKey []
    [bucketPart "c0" 0 34557, bucketPart "c1" 1 34558]) .init trivial ?_
  exact toOption_eq_some.2 hinsert

/-- The first part is accepted, and the second moves within its bucket. -/
def movedRun : Run :=
  { scheduledRun with
    pending := [{ bucketRow "c0" 0 34557 with status := .broadcasted },
      { bucketRow "c1" 1 34559 with scheduleStartHeight := some 34558 }] }

theorem receipt_replays_iff_sample :
    applyAcceptedMigrationOutboxReceipt "c0" 34558 [⟨"c1", 34559, 34558⟩] scheduledRun =
      .ok movedRun ∧
    applyAcceptedMigrationOutboxReceipt "c0" 34558 [⟨"c1", 34559, 34558⟩] movedRun =
      .ok movedRun := by
  have hkeyed : scheduledRun.Keyed := ⟨by decide, by decide⟩
  have happlied : applyAcceptedMigrationOutboxReceipt "c0" 34558 [⟨"c1", 34559, 34558⟩]
      scheduledRun = .ok movedRun := toOption_eq_some.1 (by decide +kernel)
  refine ⟨happlied, ?_⟩
  refine ((receipt_replays_iff "c0" 34558 [⟨"c1", 34559, 34558⟩] hkeyed).2 movedRun
    happlied).2.2 ?_
  refine List.forall_mem_singleton.2 (List.forall_mem_cons.2 ⟨fun hne => ?_,
    List.forall_mem_singleton.2 fun _ _ => .inl (by decide)⟩)
  exact absurd hne (by decide)

/-- The second part is marked instead when it moves into the next bucket. -/
def markedRun : Run :=
  { scheduledRun with
    phase := .readyToMigrate
    pending := [{ bucketRow "c0" 0 34557 with status := .broadcasted },
      { bucketRow "c1" 1 34558 with status := .needsResign }] }

/-- The receipt that marks it cannot be applied again. -/
theorem crossing_receipt_refused : (system bucketRun).Reachable scheduledRun ∧
    applyAcceptedMigrationOutboxReceipt "c0" 34558 [⟨"c1", 34560, 34558⟩] scheduledRun =
      .ok markedRun ∧
    applyAcceptedMigrationOutboxReceipt "c0" 34558 [⟨"c1", 34560, 34558⟩] markedRun ≠
      .ok markedRun := by
  refine ⟨reachable_scheduledRun, toOption_eq_some.1 (by decide +kernel), fun h => ?_⟩
  have hnone : (applyAcceptedMigrationOutboxReceipt "c0" 34558 [⟨"c1", 34560, 34558⟩]
      markedRun).toOption = none := by decide +kernel
  rw [h] at hnone
  cases hnone

end VizorWallet.Migration.Store
