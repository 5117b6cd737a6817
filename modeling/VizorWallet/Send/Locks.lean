import VizorWallet.Library.Bytes
import VizorWallet.Library.Outcome

/-!
# Durable bookkeeping of send locks

The locks of the wallet outputs, and the table that records which outputs a send proposal has
locked, so that a later process can release them.

## Main definitions

* `OutputLocks` — the owner of each locked output.
* `LockRow` — a row of the table of send-proposal locks.
* `persist`, `markRetainUntilExpiry`, `checkpointOwner`, `releaseOperation`, `updateExpiry`
* `readPreviousSessionLocks` — the locks that a recovery looks at.

## Main results

* `Agree.updateRows` — an update that reads the owner and the metadata only keeps rows in agreement.
* `Agree.readPreviousSessionLocks` — locks in agreement can be read.
-/

namespace VizorWallet.Send

abbrev LockOwner := Fixed 32

abbrev SessionId := Fixed 16

inductive Pool where
  | transparent
  | sapling
  | orchard
  | ironwood
  deriving DecidableEq

structure OutputRef where
  txid : String
  pool : Pool
  outputIndex : ℕ
  deriving DecidableEq

/-! ## Wallet outputs -/

/-- The owner of each locked output. -/
abbrev OutputLocks := OutputRef → Option LockOwner

def lockOutputs (outputs : List OutputRef) (owner : LockOwner) (outputLocks : OutputLocks) :
    OutputLocks :=
  fun output => if output ∈ outputs then some owner else outputLocks output

/-- Release an output, if the owner holds it. -/
def unlockOutput (owner : LockOwner) (outputLocks : OutputLocks) (output : OutputRef) :
    OutputLocks :=
  fun other => if other = output ∧ outputLocks other = some owner then none else outputLocks other

/-- The locks after each of several releases. -/
def unlockEach : OutputLocks → List (LockOwner × OutputRef) → List OutputLocks
  | _, [] => []
  | outputLocks, (owner, output) :: rest =>
    unlockOutput owner outputLocks output ::
      unlockEach (unlockOutput owner outputLocks output) rest

/-- The locks after all of several releases. -/
def unlockAll (outputLocks : OutputLocks) (releases : List (LockOwner × OutputRef)) : OutputLocks :=
  releases.foldl (fun outputLocks release => unlockOutput release.1 outputLocks release.2)
    outputLocks

/-- What several releases may have done to the locks. -/
def Released (outputLocks outputLocks' : OutputLocks) (releases : List (LockOwner × OutputRef)) :
    Prop :=
  ∀ output, outputLocks' output = outputLocks output ∨ outputLocks' output = none ∧
    ∃ owner, outputLocks output = some owner ∧ (owner, output) ∈ releases

theorem Released.refl (outputLocks : OutputLocks) (releases : List (LockOwner × OutputRef)) :
    Released outputLocks outputLocks releases :=
  fun _ => .inl rfl

theorem released_cons {outputLocks outputLocks' : OutputLocks} {owner : LockOwner}
    {output : OutputRef} {releases : List (LockOwner × OutputRef)}
    (h : Released (unlockOutput owner outputLocks output) outputLocks' releases) :
    Released outputLocks outputLocks' ((owner, output) :: releases) := by
  intro other
  have hother := h other
  unfold unlockOutput at hother
  split_ifs at hother with hunlocked
  · obtain ⟨rfl, howner⟩ := hunlocked
    refine .inr ⟨?_, owner, howner, List.mem_cons_self⟩
    obtain hsame | ⟨hnone, -⟩ := hother
    · exact hsame
    · exact hnone
  · exact hother.imp_right fun ⟨hnone, source, hsource, hmem⟩ =>
      ⟨hnone, source, hsource, List.mem_cons_of_mem _ hmem⟩

theorem released_of_mem_unlockEach {outputLocks outputLocks' : OutputLocks}
    {releases : List (LockOwner × OutputRef)} (h : outputLocks' ∈ unlockEach outputLocks releases) :
    Released outputLocks outputLocks' releases := by
  induction releases generalizing outputLocks with
  | nil => cases h
  | cons release rest ih =>
    obtain rfl | hrest := List.mem_cons.1 h
    · exact released_cons (.refl _ rest)
    · exact released_cons (ih hrest)

theorem released_unlockAll (outputLocks : OutputLocks) (releases : List (LockOwner × OutputRef)) :
    Released outputLocks (unlockAll outputLocks releases) releases := by
  induction releases generalizing outputLocks with
  | nil => exact .refl _ _
  | cons release rest ih => exact released_cons (ih _)

/-- What was released is not held by its owner any more. -/
theorem unlockAll_ne {outputLocks : OutputLocks} {releases : List (LockOwner × OutputRef)}
    {owner : LockOwner} {output : OutputRef} (h : (owner, output) ∈ releases) :
    unlockAll outputLocks releases output ≠ some owner := by
  induction releases generalizing outputLocks with
  | nil => cases h
  | cons release rest ih =>
    obtain rfl | hrest := List.mem_cons.1 h
    · have hhead : unlockOutput owner outputLocks output output ≠ some owner := by
        unfold unlockOutput
        split_ifs with hheld
        · exact nofun
        · exact fun hsome => hheld ⟨rfl, hsome⟩
      intro hheld
      obtain hsame | ⟨hnone, -⟩ :=
        released_unlockAll (unlockOutput owner outputLocks output) rest output
      · exact hhead (hsame.symm.trans hheld)
      · exact absurd (hnone.symm.trans hheld) nofun
    · exact ih hrest

/-! ## The table -/

inductive LockPhase where
  | legacy
  | session
  | signed
  | broadcast
  | release
  deriving DecidableEq

/-- The columns that the rows of an owner share. -/
structure LockMetadata where
  sessionId : SessionId
  expiryHeight : ℕ
  retainUntilExpiry : Bool
  phase : LockPhase
  operationId : Option String
  deriving DecidableEq

structure LockRow where
  owner : LockOwner
  output : OutputRef
  metadata : LockMetadata
  deriving DecidableEq

/-- `UPDATE .. SET .. WHERE ..`, with the number of rows that were updated. -/
def updateRows (condition : LockOwner → LockMetadata → Bool) (update : LockMetadata → LockMetadata)
    (rows : List LockRow) : List LockRow × ℕ :=
  (rows.map fun row =>
      if condition row.owner row.metadata then { row with metadata := update row.metadata }
      else row,
    rows.countP fun row => condition row.owner row.metadata)

/-- `INSERT OR REPLACE` -/
def insertOrReplace (rows : List LockRow) (row : LockRow) : List LockRow :=
  rows.filter (fun other => ¬ (other.owner = row.owner ∧ other.output = row.output)) ++ [row]

def persist (session : SessionId) (owner : LockOwner) (outputs : List OutputRef)
    (expiryHeight : ℕ) (rows : List LockRow) : List LockRow :=
  (outputs.map fun output => ⟨owner, output, session, expiryHeight, false, .session, none⟩).foldl
    insertOrReplace rows

def remove (owner : LockOwner) (rows : List LockRow) : List LockRow :=
  rows.filter (·.owner ≠ owner)

/-- A signed reservation stays signed. -/
def markRetainUntilExpiry (owner : LockOwner) (rows : List LockRow) :
    Except String (List LockRow) := do
  let (rows, updated) := updateRows (fun other _ => other = owner)
    (fun metadata => { metadata with
      retainUntilExpiry := true
      phase := if metadata.phase = .signed then .signed else .broadcast }) rows
  ensure (updated ≠ 0) "Send proposal lock recovery row no longer exists"
  return rows

/-- A stale PCZT cannot resurrect a released owner. -/
def checkpointOwner (session : SessionId) (operationId : String) (rows : List LockRow)
    (owner : LockOwner) : Except String (List LockRow) := do
  let (rows, updated) := updateRows
    (fun other metadata => other = owner ∧ metadata.sessionId = session ∧ metadata.phase = .session)
    (fun metadata => { metadata with
      retainUntilExpiry := true
      phase := .signed
      operationId := some operationId }) rows
  ensure (updated ≠ 0) "Signing reservation was cancelled or already transferred"
  return rows

def releaseOperation (operationId : String) (rows : List LockRow) : List LockRow :=
  (updateRows (fun _ metadata => metadata.operationId = some operationId)
    (fun metadata => { metadata with retainUntilExpiry := false, phase := .release }) rows).1

def LockMetadata.isDurable (metadata : LockMetadata) : Bool :=
  metadata.phase = .signed ∨ metadata.phase = .broadcast

def isDurable (owner : LockOwner) (rows : List LockRow) : Bool :=
  rows.any fun row => row.owner = owner ∧ row.metadata.isDurable

def updateExpiry (owner : LockOwner) (expiryHeight : ℕ) (rows : List LockRow) :
    Except String (List LockRow) := do
  let (rows, updated) := updateRows (fun other _ => other = owner)
    ({ · with expiryHeight := expiryHeight }) rows
  ensure (updated ≠ 0) "Send proposal lock recovery row no longer exists"
  return rows

/-- The locks of one owner. -/
structure SendLock where
  owner : LockOwner
  expiryHeight : ℕ
  retainUntilExpiry : Bool
  outputs : List OutputRef

def insertLock (locks : List SendLock) (row : LockRow) : Except String (List SendLock) :=
  match locks.find? (·.owner = row.owner) with
  | none => .ok (locks ++
      [⟨row.owner, row.metadata.expiryHeight, row.metadata.retainUntilExpiry, [row.output]⟩])
  | some entry => do
    ensure (entry.expiryHeight = row.metadata.expiryHeight ∧
        entry.retainUntilExpiry = row.metadata.retainUntilExpiry)
      "Persisted send lock owner has inconsistent metadata"
    return locks.map fun lock =>
      if lock.owner = row.owner then { lock with outputs := lock.outputs ++ [row.output] } else lock

/-- The rows that a recovery in a session looks at. -/
def LockMetadata.isOrphan (session : SessionId) (metadata : LockMetadata) : Bool :=
  metadata.sessionId ≠ session ∨ metadata.phase = .release

def readPreviousSessionLocks (session : SessionId) (rows : List LockRow) :
    Except String (List SendLock) :=
  (rows.filter (·.metadata.isOrphan session)).foldlM insertLock []

def shouldReleaseAfterRestart (retainUntilExpiry : Bool) (targetHeight : Option ℕ)
    (expiryHeight : ℕ) : Bool :=
  !retainUntilExpiry || targetHeight.any (expiryHeight ≤ ·)

/-! ## Agreement -/

/-- The rows of an owner have the same metadata. -/
def Agree (rows : List LockRow) : Prop :=
  ∀ row ∈ rows, ∀ row' ∈ rows, row.owner = row'.owner → row.metadata = row'.metadata

variable {rows : List LockRow} {owner : LockOwner} {session : SessionId}

theorem mem_updateRows {condition : LockOwner → LockMetadata → Bool}
    {update : LockMetadata → LockMetadata} {row : LockRow} :
    row ∈ (updateRows condition update rows).1 ↔ ∃ old ∈ rows, row = ⟨old.owner, old.output,
      if condition old.owner old.metadata then update old.metadata else old.metadata⟩ := by
  simp only [updateRows, List.mem_map]
  refine exists_congr fun old => and_congr_right fun _ => ?_
  split_ifs <;> exact eq_comm

/-- An update that reads the owner and the metadata only. -/
theorem Agree.updateRows (h : Agree rows) (condition : LockOwner → LockMetadata → Bool)
    (update : LockMetadata → LockMetadata) : Agree (updateRows condition update rows).1 := by
  intro row hrow row' hrow' howner
  obtain ⟨old, hold, rfl⟩ := mem_updateRows.1 hrow
  obtain ⟨old', hold', rfl⟩ := mem_updateRows.1 hrow'
  have hmetadata := h old hold old' hold' howner
  have howner' : old.owner = old'.owner := howner
  simp only [hmetadata, howner']

theorem Agree.subset {rows' : List LockRow} (h : Agree rows) (hrows : rows' ⊆ rows) : Agree rows' :=
  fun row hrow row' hrow' => h row (hrows hrow) row' (hrows hrow')

theorem mem_foldl_insertOrReplace {new : List LockRow} {row : LockRow} :
    row ∈ new.foldl insertOrReplace rows → row ∈ rows ∨ row ∈ new := by
  induction new generalizing rows with
  | nil => exact .inl
  | cons next rest ih =>
    intro hrow
    obtain hold | hrest := ih hrow
    · obtain hkept | hnext := List.mem_append.1 hold
      · exact .inl (List.mem_of_mem_filter hkept)
      · exact .inr (List.mem_singleton.1 hnext ▸ List.mem_cons_self)
    · exact .inr (List.mem_cons_of_mem _ hrest)

/-- A row whose key the table does not have stays. -/
theorem mem_foldl_insertOrReplace_of_mem {new : List LockRow} {row : LockRow} (hrow : row ∈ rows)
    (hnew : ∀ other ∈ new, other.owner ≠ row.owner) : row ∈ new.foldl insertOrReplace rows := by
  induction new generalizing rows with
  | nil => exact hrow
  | cons next rest ih =>
    obtain ⟨hnext, hrest⟩ := List.forall_mem_cons.1 hnew
    refine ih (List.mem_append_left _ (List.mem_filter.2 ⟨hrow, ?_⟩)) hrest
    exact decide_eq_true fun hsame => hnext hsame.1.symm

/-- Each key that is inserted is in the table afterwards. -/
theorem exists_mem_foldl_insertOrReplace {new : List LockRow} {row : LockRow}
    (h : row ∈ rows ∨ row ∈ new) :
    ∃ row' ∈ new.foldl insertOrReplace rows, row'.owner = row.owner ∧ row'.output = row.output := by
  induction new generalizing rows row with
  | nil =>
    obtain hrow | hrow := h
    · exact ⟨row, hrow, rfl, rfl⟩
    · cases hrow
  | cons next rest ih =>
    obtain hrow | hrow := h
    · by_cases hsame : row.owner = next.owner ∧ row.output = next.output
      · obtain ⟨row', hrow', howner, houtput⟩ :=
          @ih (insertOrReplace rows next) next (.inl (List.mem_append_right _ List.mem_cons_self))
        exact ⟨row', hrow', howner.trans hsame.1.symm, houtput.trans hsame.2.symm⟩
      · exact ih (.inl (List.mem_append_left _ (List.mem_filter.2 ⟨hrow, decide_eq_true hsame⟩)))
    · obtain rfl | hrest := List.mem_cons.1 hrow
      · exact ih (.inl (List.mem_append_right _ List.mem_cons_self))
      · exact ih (.inr hrest)

theorem mem_persist {outputs : List OutputRef} {expiryHeight : ℕ} {row : LockRow}
    (hrow : row ∈ persist session owner outputs expiryHeight rows) : row ∈ rows ∨
      row.owner = owner ∧ row.output ∈ outputs ∧
        row.metadata = ⟨session, expiryHeight, false, .session, none⟩ := by
  refine (mem_foldl_insertOrReplace hrow).imp_right fun hnew => ?_
  obtain ⟨output, houtput, rfl⟩ := List.mem_map.1 hnew
  exact ⟨rfl, houtput, rfl⟩

theorem exists_mem_persist {outputs : List OutputRef} {expiryHeight : ℕ} {output : OutputRef}
    (houtput : output ∈ outputs) : ∃ row ∈ persist session owner outputs expiryHeight rows,
      row.owner = owner ∧ row.output = output :=
  exists_mem_foldl_insertOrReplace (.inr (List.mem_map.2 ⟨output, houtput, rfl⟩))

theorem mem_persist_of_mem {outputs : List OutputRef} {expiryHeight : ℕ} {row : LockRow}
    (hrow : row ∈ rows) (howner : row.owner ≠ owner) :
    row ∈ persist session owner outputs expiryHeight rows := by
  refine mem_foldl_insertOrReplace_of_mem hrow fun other hother => ?_
  obtain ⟨output, -, rfl⟩ := List.mem_map.1 hother
  exact howner.symm

/-- Locks of a new owner. -/
theorem Agree.persist {outputs : List OutputRef} {expiryHeight : ℕ} (h : Agree rows)
    (hfresh : ∀ row ∈ rows, row.owner ≠ owner) :
    Agree (persist session owner outputs expiryHeight rows) := by
  intro row hrow row' hrow' howner
  obtain hold | ⟨hrowner, -, hmetadata⟩ := mem_persist hrow
  · obtain hold' | ⟨hrowner', -, -⟩ := mem_persist hrow'
    · exact h row hold row' hold' howner
    · exact absurd (howner.trans hrowner') (hfresh row hold)
  · obtain hold' | ⟨-, -, hmetadata'⟩ := mem_persist hrow'
    · exact absurd (howner.symm.trans hrowner) (hfresh row' hold')
    · rw [hmetadata, hmetadata']

/-! ## Reading the locks back -/

/-- The entries of a partial reading belong to rows. -/
def ReadFrom (rows : List LockRow) (locks : List SendLock) : Prop :=
  ∀ lock ∈ locks, ∃ row ∈ rows, row.owner = lock.owner ∧
    row.metadata.expiryHeight = lock.expiryHeight ∧
    row.metadata.retainUntilExpiry = lock.retainUntilExpiry

theorem insertLock_ok (h : Agree rows) {locks : List SendLock} (hlocks : ReadFrom rows locks)
    {row : LockRow} (hrow : row ∈ rows) :
    ∃ locks', insertLock locks row = .ok locks' ∧ ReadFrom rows locks' := by
  unfold insertLock
  cases hfind : locks.find? (·.owner = row.owner) with
  | none =>
    refine ⟨_, rfl, fun lock hlock => ?_⟩
    obtain hold | hnew := List.mem_append.1 hlock
    · exact hlocks lock hold
    · rw [List.mem_singleton.1 hnew]
      exact ⟨row, hrow, rfl, rfl, rfl⟩
  | some entry =>
    have howner : entry.owner = row.owner := by simpa using List.find?_some hfind
    obtain ⟨other, hother, hsame, hexpiry, hretain⟩ :=
      hlocks entry (List.mem_of_find?_eq_some hfind)
    have hmetadata := h other hother row hrow (hsame.trans howner)
    rw [hmetadata] at hexpiry hretain
    refine ⟨_, bind_eq_ok.2 ⟨(), ensure_of _ ⟨hexpiry.symm, hretain.symm⟩, rfl⟩,
      fun lock hlock => ?_⟩
    obtain ⟨old, hold, rfl⟩ := List.mem_map.1 hlock
    obtain ⟨source, hsource, hsame⟩ := hlocks old hold
    exact ⟨source, hsource, by split_ifs <;> exact hsame⟩

/-- Locks in agreement can be read. -/
theorem Agree.readPreviousSessionLocks (h : Agree rows) (session : SessionId) :
    ∃ locks, readPreviousSessionLocks session rows = .ok locks := by
  have hread {todo : List LockRow} (htodo : todo ⊆ rows) {locks : List SendLock}
      (hlocks : ReadFrom rows locks) : ∃ locks', todo.foldlM insertLock locks = .ok locks' := by
    induction todo generalizing locks with
    | nil => exact ⟨locks, rfl⟩
    | cons row rest ih =>
      obtain ⟨hrow, hrest⟩ := List.cons_subset.1 htodo
      obtain ⟨locks', hlocks', hread'⟩ := insertLock_ok h hlocks hrow
      obtain ⟨result, hresult⟩ := ih hrest hread'
      exact ⟨result, by rw [List.foldlM_cons, hlocks', ok_bind, hresult]⟩
  exact hread (List.filter_subset_self _) nofun

/-- What a lock tells about its owner. -/
def SendLock.columns (lock : SendLock) : LockOwner × ℕ × Bool :=
  (lock.owner, lock.expiryHeight, lock.retainUntilExpiry)

def LockRow.columns (row : LockRow) : LockOwner × ℕ × Bool :=
  (row.owner, row.metadata.expiryHeight, row.metadata.retainUntilExpiry)

/-- What one row adds to the locks. -/
theorem insertLock_spec {locks locks' : List SendLock} {row : LockRow}
    (h : insertLock locks row = .ok locks') :
    (∀ lock' ∈ locks', (∃ lock ∈ locks, lock'.columns = lock.columns) ∨
      lock'.columns = row.columns) ∧
    (∀ lock ∈ locks, ∃ lock' ∈ locks', lock'.columns = lock.columns ∧
      lock.outputs ⊆ lock'.outputs) ∧
    ∃ lock' ∈ locks', lock'.columns = row.columns ∧ row.output ∈ lock'.outputs := by
  unfold insertLock at h
  cases hfind : locks.find? (·.owner = row.owner) with
  | none =>
    rw [hfind] at h
    obtain rfl := Except.ok.inj h
    refine ⟨fun lock' hlock' => ?_, fun lock hlock => ?_, _, List.mem_append_right _
      (List.mem_singleton_self _), rfl, List.mem_singleton_self _⟩
    · obtain hold | hnew := List.mem_append.1 hlock'
      · exact .inl ⟨lock', hold, rfl⟩
      · rw [List.mem_singleton.1 hnew]
        exact .inr rfl
    · exact ⟨lock, List.mem_append_left _ hlock, rfl, List.Subset.refl _⟩
  | some entry =>
    rw [hfind] at h
    simp only [bind_eq_ok, ensure_eq_ok, exists_const, pure_eq_ok] at h
    obtain ⟨⟨hexpiry, hretain⟩, rfl⟩ := h
    have howner : entry.owner = row.owner := by simpa using List.find?_some hfind
    refine ⟨fun lock' hlock' => ?_, fun lock hlock => ⟨_, List.mem_map_of_mem hlock, ?_⟩,
      _, List.mem_map_of_mem (List.mem_of_find?_eq_some hfind), ?_⟩
    · obtain ⟨lock, hlock, rfl⟩ := List.mem_map.1 hlock'
      refine .inl ⟨lock, hlock, ?_⟩
      split_ifs <;> rfl
    · split_ifs
      · exact ⟨rfl, List.subset_append_left _ _⟩
      · exact ⟨rfl, List.Subset.refl _⟩
    · rw [if_pos howner]
      refine ⟨?_, List.mem_append_right _ (List.mem_singleton_self _)⟩
      simp only [SendLock.columns, LockRow.columns, howner, hexpiry, hretain]

theorem foldlM_insertLock_spec {todo : List LockRow} {locks locks' : List SendLock}
    (h : todo.foldlM insertLock locks = .ok locks') :
    (∀ lock' ∈ locks', (∃ lock ∈ locks, lock'.columns = lock.columns) ∨
      ∃ row ∈ todo, lock'.columns = row.columns) ∧
    (∀ lock ∈ locks, ∃ lock' ∈ locks', lock'.columns = lock.columns ∧
      lock.outputs ⊆ lock'.outputs) ∧
    ∀ row ∈ todo, ∃ lock' ∈ locks', lock'.columns = row.columns ∧ row.output ∈ lock'.outputs := by
  induction todo generalizing locks with
  | nil =>
    obtain rfl := pure_eq_ok.1 h
    exact ⟨fun lock hlock => .inl ⟨lock, hlock, rfl⟩,
      fun lock hlock => ⟨lock, hlock, rfl, List.Subset.refl _⟩, nofun⟩
  | cons row rest ih =>
    rw [List.foldlM_cons] at h
    obtain ⟨middle, hmiddle, hrest⟩ := bind_eq_ok.1 h
    obtain ⟨horigin, hkept, hrow⟩ := insertLock_spec hmiddle
    obtain ⟨hrestOrigin, hrestKept, hrestRows⟩ := ih hrest
    refine ⟨fun lock' hlock' => ?_, fun lock hlock => ?_, List.forall_mem_cons.2 ⟨?_, hrestRows⟩⟩
    · obtain ⟨lock, hlock, hcolumns⟩ | ⟨source, hsource, hsame⟩ := hrestOrigin lock' hlock'
      · rw [hcolumns]
        exact (horigin lock hlock).imp_right fun hsame => ⟨row, List.mem_cons_self, hsame⟩
      · exact .inr ⟨source, List.mem_cons_of_mem _ hsource, hsame⟩
    · obtain ⟨next, hnext, hcolumns, houtputs⟩ := hkept lock hlock
      obtain ⟨lock', hlock', hcolumns', houtputs'⟩ := hrestKept next hnext
      exact ⟨lock', hlock', hcolumns'.trans hcolumns, fun _ hmem => houtputs' (houtputs hmem)⟩
    · obtain ⟨next, hnext, hcolumns, houtput⟩ := hrow
      obtain ⟨lock', hlock', hcolumns', houtputs'⟩ := hrestKept next hnext
      exact ⟨lock', hlock', hcolumns'.trans hcolumns, houtputs' houtput⟩

/-- A reading has the locks of the rows that it looks at, and no others. -/
theorem readPreviousSessionLocks_spec {locks : List SendLock}
    (h : readPreviousSessionLocks session rows = .ok locks) :
    (∀ lock ∈ locks, ∃ row ∈ rows, row.metadata.isOrphan session ∧ lock.columns = row.columns) ∧
    ∀ row ∈ rows, row.metadata.isOrphan session → ∃ lock ∈ locks, lock.columns = row.columns ∧
      row.output ∈ lock.outputs := by
  obtain ⟨horigin, -, hrows⟩ := foldlM_insertLock_spec h
  refine ⟨fun lock hlock => ?_, fun row hrow horphan =>
    hrows row (List.mem_filter.2 ⟨hrow, horphan⟩)⟩
  obtain ⟨_, hnone, -⟩ | ⟨row, hrow, hsame⟩ := horigin lock hlock
  · cases hnone
  · obtain ⟨hmem, horphan⟩ := List.mem_filter.1 hrow
    exact ⟨row, hmem, horphan, hsame⟩

/-- The outputs of locks come from rows of their owners. -/
def FromRows (rows : List LockRow) (locks : List SendLock) : Prop :=
  ∀ lock ∈ locks, ∀ output ∈ lock.outputs, ∃ row ∈ rows, row.owner = lock.owner ∧
    row.output = output

theorem FromRows.insertLock {locks locks' : List SendLock} {row : LockRow} (h : FromRows rows locks)
    (hrow : row ∈ rows) (hinsert : insertLock locks row = .ok locks') : FromRows rows locks' := by
  unfold Send.insertLock at hinsert
  split at hinsert
  · obtain rfl := Except.ok.inj hinsert
    intro lock hlock output houtput
    obtain hold | hnew := List.mem_append.1 hlock
    · exact h lock hold output houtput
    · obtain rfl := List.mem_singleton.1 hnew
      exact ⟨row, hrow, rfl, (List.mem_singleton.1 houtput).symm⟩
  · simp only [bind_eq_ok, pure_eq_ok] at hinsert
    obtain ⟨-, -, rfl⟩ := hinsert
    intro lock hlock output houtput
    obtain ⟨old, hold, rfl⟩ := List.mem_map.1 hlock
    split_ifs at houtput ⊢ with howner
    · obtain hkept | hnew := List.mem_append.1 houtput
      · exact h old hold output hkept
      · exact ⟨row, hrow, howner.symm, (List.mem_singleton.1 hnew).symm⟩
    · exact h old hold output houtput

theorem exists_row_of_mem_outputs {locks : List SendLock}
    (h : readPreviousSessionLocks session rows = .ok locks) {lock : SendLock} (hlock : lock ∈ locks)
    {output : OutputRef} (houtput : output ∈ lock.outputs) :
    ∃ row ∈ rows, row.owner = lock.owner ∧ row.output = output := by
  have hlocks : FromRows rows locks := by
    refine foldlM_invariant (fun locks row locks' hrow hlocks hinsert => ?_) ?_ h
    · exact hlocks.insertLock (List.mem_of_mem_filter hrow) hinsert
    · exact fun _ hnone => absurd hnone List.not_mem_nil
  exact hlocks lock hlock output houtput

end VizorWallet.Send
