import VizorWallet.Library.Exclusion
import VizorWallet.Library.Outcome
import Mathlib.Data.Finset.Sort
import Mathlib.Algebra.BigOperators.Group.List.Basic
import Mathlib.Algebra.Order.BigOperators.Group.List
import Mathlib.Algebra.Order.Group.Nat
import Mathlib.Algebra.GroupWithZero.Nat

/-!
# Selection of notes that are not reserved

While a migration holds notes, sends select theirs through a source that hides the reserved notes
and those that the migration has locked. A selection for consolidation is repeated until no locked
note is in it; the ordinary selection is filtered once.

## Main definitions

* `InputSource`, `ReservedInputSource` — the source of the wallet, and the one that hides notes.
* `InputSource.Contract` — what is assumed of the source of the wallet.
* `SelectionSpec` — what is expected of the source that hides notes.

## Main results

* `reserved_selection_iff` — when it is met whatever source the wallet has.
-/

namespace VizorWallet.Send.Selection

inductive ShieldedPool where
  | sapling
  | orchard
  | ironwood
  deriving DecidableEq

structure ReceivedNote (Ref : Type) where
  internalNoteId : Ref
  txid : String
  outputIndex : ℕ
  value : ℕ
  deriving DecidableEq

structure ReceivedNotes (Ref : Type) where
  sapling : List (ReceivedNote Ref)
  orchard : List (ReceivedNote Ref)
  ironwood : List (ReceivedNote Ref)

structure ConsolidationNotes (Ref : Type) where
  funding : ReceivedNotes Ref
  additional : ReceivedNotes Ref

inductive TargetValue (Mode : Type) where
  | atLeast (value : ℕ)
  | allFunds (mode : Mode)

/-- A source of notes. A query is what every call passes on as it is: the account, the target
height, the confirmations policy and the lock filter. -/
structure InputSource (Ref Query Mode Error : Type) where
  getSpendableNote : Query → String → ShieldedPool → ℕ → Except Error (Option (ReceivedNote Ref))
  selectSpendableNotes : Query → TargetValue Mode → List ShieldedPool → List Ref →
    Except Error (ReceivedNotes Ref)
  selectSpendableNotesForConsolidation : Query → ℕ → ShieldedPool → ℕ → List Ref →
    Except Error (ConsolidationNotes Ref)
  selectUnspentNotes : Query → List ShieldedPool → List Ref → Except Error (ReceivedNotes Ref)

structure ReservedInputSource (Ref Query Mode Error : Type) where
  inner : InputSource Ref Query Mode Error
  reserved : Finset Ref
  migrationLocks : Finset (String × ℕ)

section Source

variable {Ref Query Mode Error : Type} [LinearOrder Ref]
  (source : ReservedInputSource Ref Query Mode Error)

/-! ## The source that hides notes -/

/-- `sort_unstable` and `dedup`. -/
def sortDedup (refs : List Ref) : List Ref := (refs.insertionSort (· ≤ ·)).dedup

namespace ReservedInputSource

def mergedExcludes (exclude : List Ref) : List Ref :=
  sortDedup (exclude ++ source.reserved.sort (· ≤ ·))

omit [LinearOrder Ref] in
def noteIsLocked (note : ReceivedNote Ref) : Bool :=
  (note.txid.toLower, note.outputIndex) ∈ source.migrationLocks

def migrationLockedNoteIds (notes : ReceivedNotes Ref) : List Ref :=
  (notes.orchard.filter source.noteIsLocked).map ReceivedNote.internalNoteId ++
    (notes.ironwood.filter source.noteIsLocked).map ReceivedNote.internalNoteId

def getSpendableNote (query : Query) (txid : String) (protocol : ShieldedPool) (index : ℕ) :
    Except Error (Option (ReceivedNote Ref)) := do
  let note ← source.inner.getSpendableNote query txid protocol index
  return (note.filter (·.internalNoteId ∉ source.reserved)).filter (!source.noteIsLocked ·)

/-- Locks are about Orchard and Ironwood notes. -/
def withoutLocked (selected : ReceivedNotes Ref) : ReceivedNotes Ref where
  sapling := selected.sapling
  orchard := selected.orchard.filter (!source.noteIsLocked ·)
  ironwood := selected.ironwood.filter (!source.noteIsLocked ·)

def selectSpendableNotes (query : Query) (targetValue : TargetValue Mode)
    (sources : List ShieldedPool) (exclude : List Ref) : Except Error (ReceivedNotes Ref) := do
  let selected ← source.inner.selectSpendableNotes query targetValue sources
    (source.mergedExcludes exclude)
  return source.withoutLocked selected

def newlyExcluded (selected : ConsolidationNotes Ref) : List Ref :=
  source.migrationLockedNoteIds selected.funding ++
    source.migrationLockedNoteIds selected.additional

/-- `none` when the loop does not end within the fuel. -/
def selectSpendableNotesForConsolidation (query : Query) (value : ℕ) (pool : ShieldedPool)
    (maxAdditionalNotes : ℕ) (exclude : List Ref) (fuel : ℕ) :
    Option (Except Error (ConsolidationNotes Ref)) :=
  retry (source.inner.selectSpendableNotesForConsolidation query value pool maxAdditionalNotes)
    source.newlyExcluded (fun merged new => sortDedup (merged ++ new)) fuel
    (source.mergedExcludes exclude)

def selectUnspentNotes (query : Query) (sources : List ShieldedPool) (exclude : List Ref) :
    Except Error (ReceivedNotes Ref) := do
  let selected ← source.inner.selectUnspentNotes query sources (source.mergedExcludes exclude)
  return source.withoutLocked selected

end ReservedInputSource

end Source

/-! ## Notes of a wallet -/

/-- A note with its pool. -/
abbrev Entry (Ref : Type) := ShieldedPool × ReceivedNote Ref

abbrev Entry.id {Ref : Type} (entry : Entry Ref) : Ref := entry.2.internalNoteId

def ReceivedNotes.entries {Ref : Type} (notes : ReceivedNotes Ref) : List (Entry Ref) :=
  notes.sapling.map (ShieldedPool.sapling, ·) ++ notes.orchard.map (ShieldedPool.orchard, ·) ++
    notes.ironwood.map (ShieldedPool.ironwood, ·)

def total {Ref : Type} (entries : List (Entry Ref)) : ℕ := (entries.map (·.2.value)).sum

/-- The notes that can be spent for a query from some pools. References identify them. -/
structure NoteStore (Ref Query : Type) where
  spendable : Query → List ShieldedPool → List (Entry Ref)
  distinct : ∀ query sources, ((spendable query sources).map Entry.id).Nodup

section Selection

variable {Ref Query Mode Error : Type} [LinearOrder Ref]

/-- The notes that are not excluded. -/
def outside (exclude : List Ref) (entries : List (Entry Ref)) : List (Entry Ref) :=
  entries.filter (·.id ∉ exclude)

omit [LinearOrder Ref] in
/-- An answer is made of spendable notes, each once, and none of them is excluded. -/
structure Answers (spendable : List (Entry Ref)) (exclude : List Ref)
    (entries : List (Entry Ref)) : Prop where
  subperm : entries.Subperm spendable
  fresh : ∀ entry ∈ entries, entry.id ∉ exclude

/-- What is assumed of the source of the wallet. -/
structure InputSource.Contract (store : NoteStore Ref Query)
    (inner : InputSource Ref Query Mode Error) : Prop where
  selected : ∀ query targetValue sources exclude notes,
    inner.selectSpendableNotes query targetValue sources exclude = .ok notes →
    Answers (store.spendable query sources) exclude notes.entries
  consolidated : ∀ query value pool maxAdditional exclude notes,
    inner.selectSpendableNotesForConsolidation query value pool maxAdditional exclude = .ok notes →
    Answers (store.spendable query [pool]) exclude
      (notes.funding.entries ++ notes.additional.entries)
  unspent : ∀ query sources exclude notes,
    inner.selectUnspentNotes query sources exclude = .ok notes →
    ∀ entry ∈ notes.entries, entry.id ∉ exclude
  reaches : ∀ query value sources exclude,
    value ≤ total (outside exclude (store.spendable query sources)) →
    ∃ notes, inner.selectSpendableNotes query (.atLeast value) sources exclude = .ok notes ∧
      value ≤ total notes.entries
  consolidationReaches : ∀ query value pool maxAdditional exclude,
    value ≤ total (outside exclude (store.spendable query [pool])) →
    ∃ notes, inner.selectSpendableNotesForConsolidation query value pool maxAdditional exclude =
      .ok notes ∧ value ≤ total notes.funding.entries

/-- The migration has locked the note. -/
def isLocked (migrationLocks : Finset (String × ℕ)) (entry : Entry Ref) : Bool :=
  entry.1 ≠ .sapling && (entry.2.txid.toLower, entry.2.outputIndex) ∈ migrationLocks

/-- The note is neither reserved, excluded nor locked. -/
def Allowed (reserved : Finset Ref) (migrationLocks : Finset (String × ℕ)) (exclude : List Ref)
    (entry : Entry Ref) : Prop :=
  entry.id ∉ reserved ∧ entry.id ∉ exclude ∧ ¬ isLocked migrationLocks entry

instance (reserved : Finset Ref) (migrationLocks : Finset (String × ℕ)) (exclude : List Ref) :
    DecidablePred (Allowed reserved migrationLocks exclude) :=
  fun _ => inferInstanceAs (Decidable (_ ∧ _ ∧ _))

/-- The notes that a selection may return. -/
def free (reserved : Finset Ref) (migrationLocks : Finset (String × ℕ)) (exclude : List Ref)
    (entries : List (Entry Ref)) : List (Entry Ref) :=
  entries.filter (Allowed reserved migrationLocks exclude ·)

/-- The notes that only the locks keep from a selection. -/
def held (reserved : Finset Ref) (migrationLocks : Finset (String × ℕ)) (exclude : List Ref)
    (entries : List (Entry Ref)) : List (Entry Ref) :=
  entries.filter fun entry =>
    entry.id ∉ reserved ∧ entry.id ∉ exclude ∧ isLocked migrationLocks entry

/-- What is expected of the source that hides notes. -/
structure SelectionSpec (store : NoteStore Ref Query)
    (source : ReservedInputSource Ref Query Mode Error) (query : Query)
    (targetValue : TargetValue Mode) (sources : List ShieldedPool) (value : ℕ)
    (pool : ShieldedPool) (maxAdditional : ℕ) (exclude : List Ref) : Prop where
  single : ∀ txid index note,
    source.getSpendableNote query txid pool index = .ok (some note) →
    Allowed source.reserved source.migrationLocks [] (pool, note)
  selected : ∀ notes, source.selectSpendableNotes query targetValue sources exclude = .ok notes →
    ∀ entry ∈ notes.entries, Allowed source.reserved source.migrationLocks exclude entry
  consolidated : ∀ fuel notes, source.selectSpendableNotesForConsolidation query value pool
      maxAdditional exclude fuel = some (.ok notes) →
    ∀ entry ∈ notes.funding.entries ++ notes.additional.entries,
      Allowed source.reserved source.migrationLocks exclude entry
  unspent : ∀ notes, source.selectUnspentNotes query sources exclude = .ok notes →
    ∀ entry ∈ notes.entries, Allowed source.reserved source.migrationLocks exclude entry
  terminates : ∃ fuel, (source.selectSpendableNotesForConsolidation query value pool maxAdditional
    exclude fuel).isSome
  reaches : ∀ target, targetValue = .atLeast target →
    target ≤ total (free source.reserved source.migrationLocks exclude
      (store.spendable query sources)) →
    ∃ notes, source.selectSpendableNotes query targetValue sources exclude = .ok notes ∧
      target ≤ total notes.entries
  consolidationReaches : value ≤ total (free source.reserved source.migrationLocks exclude
      (store.spendable query [pool])) →
    ∃ fuel notes, source.selectSpendableNotesForConsolidation query value pool maxAdditional
      exclude fuel = some (.ok notes) ∧ value ≤ total notes.funding.entries

/-! ## What the source hides -/

variable {store : NoteStore Ref Query} {inner : InputSource Ref Query Mode Error}
  {source : ReservedInputSource Ref Query Mode Error} {reserved : Finset Ref}
  {migrationLocks : Finset (String × ℕ)} {exclude : List Ref} {entries : List (Entry Ref)}
  {entry : Entry Ref} {ref : Ref} {query : Query} {sources : List ShieldedPool} {value : ℕ}
  {pool : ShieldedPool} {maxAdditional : ℕ}

theorem mem_sortDedup {refs : List Ref} : ref ∈ sortDedup refs ↔ ref ∈ refs := by
  rw [sortDedup, List.mem_dedup, List.mem_insertionSort]

theorem mem_mergedExcludes :
    ref ∈ source.mergedExcludes exclude ↔ ref ∈ exclude ∨ ref ∈ source.reserved := by
  rw [ReservedInputSource.mergedExcludes, mem_sortDedup, List.mem_append, Finset.mem_sort]

omit [LinearOrder Ref] in
theorem mem_entries {notes : ReceivedNotes Ref} : entry ∈ notes.entries ↔
    (entry.1 = .sapling ∧ entry.2 ∈ notes.sapling) ∨
      (entry.1 = .orchard ∧ entry.2 ∈ notes.orchard) ∨
      (entry.1 = .ironwood ∧ entry.2 ∈ notes.ironwood) := by
  obtain ⟨pool, note⟩ := entry
  simp only [ReceivedNotes.entries, List.mem_append, List.mem_map, Prod.mk.injEq]
  grind

omit [LinearOrder Ref] in
theorem isLocked_sapling (note : ReceivedNote Ref) :
    isLocked migrationLocks (.sapling, note) = false := rfl

omit [LinearOrder Ref] in
theorem isLocked_of_ne (source : ReservedInputSource Ref Query Mode Error) {pool : ShieldedPool}
    (hpool : pool ≠ .sapling) (note : ReceivedNote Ref) :
    isLocked source.migrationLocks (pool, note) = source.noteIsLocked note := by
  simp [isLocked, ReservedInputSource.noteIsLocked, hpool]

omit [LinearOrder Ref] in
theorem entries_withoutLocked (notes : ReceivedNotes Ref) :
    (source.withoutLocked notes).entries =
      notes.entries.filter (!isLocked source.migrationLocks ·) := by
  simp only [ReceivedNotes.entries, ReservedInputSource.withoutLocked, List.filter_append,
    List.filter_map, Function.comp_def, isLocked_sapling, Bool.not_false, List.filter_true,
    isLocked_of_ne source (by decide : ShieldedPool.orchard ≠ .sapling),
    isLocked_of_ne source (by decide : ShieldedPool.ironwood ≠ .sapling)]

omit [LinearOrder Ref] in
theorem mem_migrationLockedNoteIds {notes : ReceivedNotes Ref} :
    ref ∈ source.migrationLockedNoteIds notes ↔
      ∃ entry ∈ notes.entries, isLocked source.migrationLocks entry ∧ entry.id = ref := by
  simp only [ReservedInputSource.migrationLockedNoteIds, List.mem_append, List.mem_map,
    List.mem_filter]
  constructor
  · rintro (⟨note, ⟨hnote, hlocked⟩, rfl⟩ | ⟨note, ⟨hnote, hlocked⟩, rfl⟩)
    · refine ⟨(.orchard, note), mem_entries.2 (.inr (.inl ⟨rfl, hnote⟩)), ?_, rfl⟩
      rwa [isLocked_of_ne source (by decide)]
    · refine ⟨(.ironwood, note), mem_entries.2 (.inr (.inr ⟨rfl, hnote⟩)), ?_, rfl⟩
      rwa [isLocked_of_ne source (by decide)]
  · rintro ⟨⟨pool, note⟩, hentry, hlocked, rfl⟩
    obtain ⟨rfl, -⟩ | ⟨rfl, hnote⟩ | ⟨rfl, hnote⟩ := mem_entries.1 hentry
    · cases hlocked
    · rw [isLocked_of_ne source (by decide)] at hlocked
      exact .inl ⟨note, ⟨hnote, hlocked⟩, rfl⟩
    · rw [isLocked_of_ne source (by decide)] at hlocked
      exact .inr ⟨note, ⟨hnote, hlocked⟩, rfl⟩

omit [LinearOrder Ref] in
theorem mem_newlyExcluded {notes : ConsolidationNotes Ref} :
    ref ∈ source.newlyExcluded notes ↔
      ∃ entry ∈ notes.funding.entries ++ notes.additional.entries,
        isLocked source.migrationLocks entry ∧ entry.id = ref := by
  simp only [ReservedInputSource.newlyExcluded, List.mem_append, mem_migrationLockedNoteIds]
  grind

omit [LinearOrder Ref] in
theorem newlyExcluded_eq_nil {notes : ConsolidationNotes Ref} :
    source.newlyExcluded notes = [] ↔
      ∀ entry ∈ notes.funding.entries ++ notes.additional.entries,
        ¬ isLocked source.migrationLocks entry := by
  rw [List.eq_nil_iff_forall_not_mem]
  constructor
  · intro hnone entry hentry hlocked
    exact hnone entry.id (mem_newlyExcluded.2 ⟨entry, hentry, hlocked, rfl⟩)
  · intro hnone ref href
    obtain ⟨entry, hentry, hlocked, -⟩ := mem_newlyExcluded.1 href
    exact hnone entry hentry hlocked

/-! ## Totals -/

omit [LinearOrder Ref] in
theorem total_le_of_sublist {fewer : List (Entry Ref)} (h : fewer.Sublist entries) :
    total fewer ≤ total entries :=
  (h.map _).sum_le_sum fun _ _ => Nat.zero_le _

omit [LinearOrder Ref] in
theorem total_eq_of_perm {other : List (Entry Ref)} (h : entries.Perm other) :
    total entries = total other :=
  (h.map _).sum_eq

omit [LinearOrder Ref] in
theorem total_append (first second : List (Entry Ref)) :
    total (first ++ second) = total first + total second := by
  rw [total, List.map_append, List.sum_append]
  rfl

omit [LinearOrder Ref] in
theorem total_le_of_subperm {fewer : List (Entry Ref)} (h : fewer.Subperm entries) :
    total fewer ≤ total entries := by
  obtain ⟨same, hperm, hsub⟩ := h
  rw [← total_eq_of_perm hperm]
  exact total_le_of_sublist hsub

omit [LinearOrder Ref] in
/-- The entries of a list that pass a test, and those that do not. -/
theorem total_filter_add (p : Entry Ref → Bool) (entries : List (Entry Ref)) :
    total (entries.filter p) + total (entries.filter (!p ·)) = total entries := by
  rw [← total_append]
  exact total_eq_of_perm (List.filter_append_perm p entries)

/-! ## Soundness -/

/-- Filtering an answer to the merged exclusions leaves allowed notes. -/
theorem allowed_of_withoutLocked {notes : ReceivedNotes Ref}
    (hfresh : ∀ entry ∈ notes.entries, entry.id ∉ source.mergedExcludes exclude) :
    ∀ entry ∈ (source.withoutLocked notes).entries,
      Allowed source.reserved source.migrationLocks exclude entry := by
  intro entry hentry
  rw [entries_withoutLocked, List.mem_filter] at hentry
  obtain ⟨hentry, hunlocked⟩ := hentry
  have hnot := hfresh entry hentry
  rw [mem_mergedExcludes, not_or] at hnot
  exact ⟨hnot.2, hnot.1, by simpa using hunlocked⟩

theorem single_allowed {txid : String} {index : ℕ} {note : ReceivedNote Ref}
    (h : source.getSpendableNote query txid pool index = .ok (some note)) :
    Allowed source.reserved source.migrationLocks [] (pool, note) := by
  simp only [ReservedInputSource.getSpendableNote, bind_eq_ok, pure_eq_ok] at h
  obtain ⟨found, -, hfound⟩ := h
  rw [Option.filter_eq_some_iff, Option.filter_eq_some_iff] at hfound
  obtain ⟨⟨-, hreserved⟩, hunlocked⟩ := hfound
  refine ⟨of_decide_eq_true hreserved, List.not_mem_nil, ?_⟩
  intro hlocked
  simp only [isLocked, Bool.and_eq_true] at hlocked
  simp [ReservedInputSource.noteIsLocked] at hunlocked
  grind

theorem selected_allowed {targetValue : TargetValue Mode} {notes : ReceivedNotes Ref}
    (hcontract : source.inner.Contract store)
    (h : source.selectSpendableNotes query targetValue sources exclude = .ok notes) :
    ∀ entry ∈ notes.entries, Allowed source.reserved source.migrationLocks exclude entry := by
  simp only [ReservedInputSource.selectSpendableNotes, bind_eq_ok, pure_eq_ok] at h
  obtain ⟨selected, hselected, rfl⟩ := h
  exact allowed_of_withoutLocked (hcontract.selected _ _ _ _ _ hselected).fresh

theorem unspent_allowed {notes : ReceivedNotes Ref} (hcontract : source.inner.Contract store)
    (h : source.selectUnspentNotes query sources exclude = .ok notes) :
    ∀ entry ∈ notes.entries, Allowed source.reserved source.migrationLocks exclude entry := by
  simp only [ReservedInputSource.selectUnspentNotes, bind_eq_ok, pure_eq_ok] at h
  obtain ⟨selected, hselected, rfl⟩ := h
  exact allowed_of_withoutLocked (hcontract.unspent _ _ _ _ hselected)

/-! ## Consolidation -/

/-- What the loop excludes: all that is excluded from the start, and no reference of a free note. -/
structure Excludes (store : NoteStore Ref Query)
    (source : ReservedInputSource Ref Query Mode Error) (query : Query) (pool : ShieldedPool)
    (exclude excluded : List Ref) : Prop where
  merged : ∀ ref ∈ source.mergedExcludes exclude, ref ∈ excluded
  free : ∀ entry ∈ store.spendable query [pool],
    Allowed source.reserved source.migrationLocks exclude entry → entry.id ∉ excluded

theorem excludes_start : Excludes store source query pool exclude (source.mergedExcludes exclude)
    where
  merged _ href := href
  free _ _ hallowed := by
    rw [mem_mergedExcludes]
    rintro (hexcluded | hreserved)
    · exact hallowed.2.1 hexcluded
    · exact hallowed.1 hreserved

omit [LinearOrder Ref] in
theorem eq_of_id_eq {other : Entry Ref} (hentry : entry ∈ store.spendable query sources)
    (hother : other ∈ store.spendable query sources) (h : entry.id = other.id) : entry = other :=
  List.inj_on_of_nodup_map (store.distinct query sources) hentry hother h

theorem Excludes.step {excluded : List Ref} {notes : ConsolidationNotes Ref}
    (h : Excludes store source query pool exclude excluded)
    (hanswers : Answers (store.spendable query [pool]) excluded
      (notes.funding.entries ++ notes.additional.entries)) :
    Excludes store source query pool exclude (sortDedup (excluded ++ source.newlyExcluded notes))
    where
  merged ref href := mem_sortDedup.2 (List.mem_append_left _ (h.merged ref href))
  free entry hentry hallowed := by
    rw [mem_sortDedup, List.mem_append]
    rintro (hexcluded | hnew)
    · exact h.free entry hentry hallowed hexcluded
    · obtain ⟨locked, hmem, hlocked, hid⟩ := mem_newlyExcluded.1 hnew
      obtain rfl := eq_of_id_eq hentry (hanswers.subperm.subset hmem) hid.symm
      exact hallowed.2.2 hlocked

theorem consolidation_terminates (hcontract : source.inner.Contract store) (value : ℕ)
    (maxAdditional : ℕ) : ∃ fuel, (source.selectSpendableNotesForConsolidation query value pool
      maxAdditional exclude fuel).isSome := by
  refine ⟨_, retry_isSome ((store.spendable query [pool]).map Entry.id) ?_ ?_
    (Nat.lt_succ_self _)⟩
  · intro excluded new ref
    rw [mem_sortDedup, List.mem_append]
  · intro excluded notes hnotes ref href
    have hanswers := hcontract.consolidated _ _ _ _ _ _ hnotes
    obtain ⟨entry, hentry, -, rfl⟩ := mem_newlyExcluded.1 href
    exact ⟨List.mem_map_of_mem (hanswers.subperm.subset hentry), hanswers.fresh entry hentry⟩

/-- A result of the loop is an answer without locked notes. -/
theorem consolidation_spec {fuel : ℕ} {result : Except Error (ConsolidationNotes Ref)}
    (hcontract : source.inner.Contract store)
    (h : source.selectSpendableNotesForConsolidation query value pool maxAdditional exclude fuel =
      some result) :
    ∃ excluded, Excludes store source query pool exclude excluded ∧
      source.inner.selectSpendableNotesForConsolidation query value pool maxAdditional excluded =
        result ∧ ∀ notes, result = .ok notes → source.newlyExcluded notes = [] :=
  retry_spec excludes_start
    (fun _ _ hexcludes hnotes => hexcludes.step (hcontract.consolidated _ _ _ _ _ _ hnotes)) h

theorem consolidated_allowed {fuel : ℕ} {notes : ConsolidationNotes Ref}
    (hcontract : source.inner.Contract store)
    (h : source.selectSpendableNotesForConsolidation query value pool maxAdditional exclude fuel =
      some (.ok notes)) :
    ∀ entry ∈ notes.funding.entries ++ notes.additional.entries,
      Allowed source.reserved source.migrationLocks exclude entry := by
  obtain ⟨excluded, hexcludes, hnotes, hunlocked⟩ := consolidation_spec hcontract h
  intro entry hentry
  have hfresh := (hcontract.consolidated _ _ _ _ _ _ hnotes).fresh entry hentry
  have hnot : entry.id ∉ source.mergedExcludes exclude :=
    fun hmerged => hfresh (hexcludes.merged _ hmerged)
  rw [mem_mergedExcludes, not_or] at hnot
  exact ⟨hnot.2, hnot.1, newlyExcluded_eq_nil.1 (hunlocked notes rfl) entry hentry⟩

theorem consolidation_reaches (hcontract : source.inner.Contract store)
    (hfree : value ≤ total (free source.reserved source.migrationLocks exclude
      (store.spendable query [pool]))) :
    ∃ fuel notes, source.selectSpendableNotesForConsolidation query value pool maxAdditional
      exclude fuel = some (.ok notes) ∧ value ≤ total notes.funding.entries := by
  obtain ⟨fuel, hsome⟩ := consolidation_terminates hcontract value maxAdditional
  obtain ⟨result, hresult⟩ := Option.isSome_iff_exists.1 hsome
  obtain ⟨excluded, hexcludes, hanswer, -⟩ := consolidation_spec hcontract hresult
  have hsub : (free source.reserved source.migrationLocks exclude
      (store.spendable query [pool])).Sublist
      (outside excluded (store.spendable query [pool])) := by
    apply filter_sublist_filter
    intro entry hentry hallowed
    exact decide_eq_true (hexcludes.free entry hentry (of_decide_eq_true hallowed))
  obtain ⟨notes, hnotes, hreaches⟩ := hcontract.consolidationReaches query value pool maxAdditional
    excluded (hfree.trans (total_le_of_sublist hsub))
  refine ⟨fuel, notes, ?_, hreaches⟩
  rw [hresult, ← hanswer, hnotes]

/-! ## Ordinary selection -/

/-- The free notes fall short of a target, or whichever of them reach it together with the locked
notes reach it alone. -/
def Fits (reserved : Finset Ref) (migrationLocks : Finset (String × ℕ)) (exclude : List Ref)
    (entries : List (Entry Ref)) (target : ℕ) : Prop :=
  target ≤ total (free reserved migrationLocks exclude entries) →
    ∀ chosen, chosen.Sublist (free reserved migrationLocks exclude entries) →
      target ≤ total chosen + total (held reserved migrationLocks exclude entries) →
      target ≤ total chosen

theorem free_sublist_outside : (free source.reserved source.migrationLocks exclude entries).Sublist
    (outside (source.mergedExcludes exclude) entries) := by
  apply filter_sublist_filter
  intro entry _ hallowed
  have hallowed := of_decide_eq_true hallowed
  apply decide_eq_true
  rw [mem_mergedExcludes, not_or]
  exact ⟨hallowed.2.1, hallowed.1⟩

omit [LinearOrder Ref] in
/-- What is selected of a list and passes a test is selected of what passes it. -/
theorem subperm_filter {selected : List (Entry Ref)} {p : Entry Ref → Bool}
    (h : selected.Subperm entries) (hp : ∀ entry ∈ selected, p entry) :
    selected.Subperm (entries.filter p) := by
  have hfilter := h.filter p
  rwa [List.filter_eq_self.2 hp] at hfilter

theorem selected_reaches {target : ℕ} (hcontract : source.inner.Contract store)
    (hfits : Fits source.reserved source.migrationLocks exclude (store.spendable query sources)
      target)
    (hfree : target ≤ total (free source.reserved source.migrationLocks exclude
      (store.spendable query sources))) :
    ∃ notes, source.selectSpendableNotes query (.atLeast target) sources exclude = .ok notes ∧
      target ≤ total notes.entries := by
  obtain ⟨selected, hselected, hreaches⟩ := hcontract.reaches query target sources
    (source.mergedExcludes exclude) (hfree.trans (total_le_of_sublist free_sublist_outside))
  have hanswers := hcontract.selected _ _ _ _ _ hselected
  refine ⟨source.withoutLocked selected, ?_, ?_⟩
  · rw [ReservedInputSource.selectSpendableNotes, hselected]
    rfl
  have hunlocked : (source.withoutLocked selected).entries.Subperm
      (free source.reserved source.migrationLocks exclude (store.spendable query sources)) := by
    apply subperm_filter
    · rw [entries_withoutLocked]
      exact List.filter_sublist.subperm.trans hanswers.subperm
    · intro entry hentry
      exact decide_eq_true (allowed_of_withoutLocked hanswers.fresh entry hentry)
  have hlocked : (selected.entries.filter (isLocked source.migrationLocks)).Subperm
      (held source.reserved source.migrationLocks exclude (store.spendable query sources)) := by
    apply subperm_filter
    · exact List.filter_sublist.subperm.trans hanswers.subperm
    · intro entry hentry
      obtain ⟨hentry, hlocked⟩ := List.mem_filter.1 hentry
      have hnot := hanswers.fresh entry hentry
      rw [mem_mergedExcludes, not_or] at hnot
      exact decide_eq_true ⟨hnot.2, hnot.1, hlocked⟩
  have hsum := total_filter_add (isLocked source.migrationLocks) selected.entries
  rw [← entries_withoutLocked] at hsum
  obtain ⟨chosen, hperm, hsub⟩ := hunlocked
  rw [← total_eq_of_perm hperm] at hsum ⊢
  apply hfits hfree chosen hsub
  have hheld := total_le_of_subperm hlocked
  omega

/-! ## A source that prefers some notes -/

def ReceivedNotes.ofEntries (entries : List (Entry Ref)) : ReceivedNotes Ref where
  sapling := (entries.filter (·.1 = .sapling)).map Prod.snd
  orchard := (entries.filter (·.1 = .orchard)).map Prod.snd
  ironwood := (entries.filter (·.1 = .ironwood)).map Prod.snd

omit [LinearOrder Ref] in
theorem entries_ofEntries (entries : List (Entry Ref)) :
    (ReceivedNotes.ofEntries entries).entries.Perm entries := by
  induction entries with
  | nil => exact List.Perm.nil
  | cons entry rest ih =>
    obtain ⟨pool, note⟩ := entry
    cases pool with
    | sapling => exact ih.cons _
    | orchard =>
      refine List.Perm.trans ?_ (ih.cons _)
      exact (List.perm_middle.append_right _)
    | ironwood =>
      refine List.Perm.trans ?_ (ih.cons _)
      exact List.perm_middle

/-- The preferred notes of a list if they reach a target, else all. -/
def prefer (preferred : List (Entry Ref)) (entries : List (Entry Ref)) (target : ℕ) :
    List (Entry Ref) :=
  if target ≤ total (entries.filter (· ∈ preferred)) then entries.filter (· ∈ preferred)
  else entries

theorem prefer_sublist (preferred : List (Entry Ref)) (target : ℕ) :
    (prefer preferred entries target).Sublist entries := by
  unfold prefer
  split_ifs
  · exact List.filter_sublist
  · exact List.Sublist.refl entries

theorem le_total_prefer {target : ℕ} (preferred : List (Entry Ref)) (h : target ≤ total entries) :
    target ≤ total (prefer preferred entries target) := by
  unfold prefer
  split_ifs with hreaches
  · exact hreaches
  · exact h

/-- A source that selects preferred notes when they reach the target. -/
def InputSource.preferring (store : NoteStore Ref Query) (preferred : List (Entry Ref)) :
    InputSource Ref Query Mode Error where
  getSpendableNote _ _ _ _ := .ok none
  selectSpendableNotes query targetValue sources exclude :=
    let available := outside exclude (store.spendable query sources)
    match targetValue with
    | .atLeast target => .ok (.ofEntries (prefer preferred available target))
    | .allFunds _ => .ok (.ofEntries available)
  selectSpendableNotesForConsolidation query value pool _ exclude :=
    .ok ⟨.ofEntries (prefer preferred (outside exclude (store.spendable query [pool])) value),
      .ofEntries []⟩
  selectUnspentNotes query sources exclude :=
    .ok (.ofEntries (outside exclude (store.spendable query sources)))

theorem answers_of_sublist {selected : List (Entry Ref)}
    (h : selected.Sublist (outside exclude entries)) :
    Answers entries exclude (ReceivedNotes.ofEntries selected).entries where
  subperm := (entries_ofEntries selected).subperm.trans (h.trans List.filter_sublist).subperm
  fresh entry hentry := by
    have hmem := h.subset ((entries_ofEntries selected).subset hentry)
    exact of_decide_eq_true (List.mem_filter.1 hmem).2

theorem preferring_contract (preferred : List (Entry Ref)) :
    (InputSource.preferring store preferred : InputSource Ref Query Mode Error).Contract store where
  selected query targetValue sources exclude notes h := by
    cases targetValue with
    | atLeast target =>
      obtain rfl := Except.ok.inj h
      exact answers_of_sublist (prefer_sublist preferred target)
    | allFunds mode =>
      obtain rfl := Except.ok.inj h
      exact answers_of_sublist (List.Sublist.refl _)
  consolidated query value pool maxAdditional exclude notes h := by
    obtain rfl := Except.ok.inj h
    have hnone : (ReceivedNotes.ofEntries ([] : List (Entry Ref))).entries = [] := rfl
    dsimp only
    rw [hnone, List.append_nil]
    exact answers_of_sublist (prefer_sublist preferred value)
  unspent query sources exclude notes h := by
    obtain rfl := Except.ok.inj h
    exact (answers_of_sublist (List.Sublist.refl _)).fresh
  reaches query value sources exclude h := by
    refine ⟨_, rfl, ?_⟩
    rw [total_eq_of_perm (entries_ofEntries _)]
    exact le_total_prefer preferred h
  consolidationReaches query value pool maxAdditional exclude h := by
    refine ⟨_, rfl, ?_⟩
    rw [total_eq_of_perm (entries_ofEntries _)]
    exact le_total_prefer preferred h

theorem mem_free : entry ∈ free reserved migrationLocks exclude entries ↔
    entry ∈ entries ∧ Allowed reserved migrationLocks exclude entry := by
  rw [free, List.mem_filter, decide_eq_true_iff]

theorem mem_held : entry ∈ held reserved migrationLocks exclude entries ↔ entry ∈ entries ∧
    entry.id ∉ reserved ∧ entry.id ∉ exclude ∧ isLocked migrationLocks entry := by
  rw [held, List.mem_filter, decide_eq_true_iff]

omit [LinearOrder Ref] in
theorem NoteStore.nodup (store : NoteStore Ref Query) (query : Query)
    (sources : List ShieldedPool) : (store.spendable query sources).Nodup :=
  (store.distinct query sources).of_map

theorem mem_outside : entry ∈ outside (source.mergedExcludes exclude) entries ↔
    entry ∈ entries ∧ entry.id ∉ exclude ∧ entry.id ∉ source.reserved := by
  rw [outside, List.mem_filter, decide_eq_true_iff, mem_mergedExcludes, not_or]

/-- The preferred notes that can be selected, when they are free or locked. -/
theorem filter_preferred_perm {chosen : List (Entry Ref)} (hnodup : entries.Nodup)
    (hsub : chosen.Sublist (free source.reserved source.migrationLocks exclude entries)) :
    ((outside (source.mergedExcludes exclude) entries).filter
      (· ∈ chosen ++ held source.reserved source.migrationLocks exclude entries)).Perm
      (chosen ++ held source.reserved source.migrationLocks exclude entries) := by
  have hchosen : chosen.Nodup := (hnodup.filter _).sublist hsub
  have houtside : (outside (source.mergedExcludes exclude) entries).Nodup := hnodup.filter _
  have hheld : (held source.reserved source.migrationLocks exclude entries).Nodup :=
    hnodup.filter _
  rw [List.perm_ext_iff_of_nodup (houtside.filter _) (hchosen.append hheld ?_)]
  · intro entry
    rw [List.mem_filter, decide_eq_true_iff, mem_outside]
    refine and_iff_right_of_imp fun hmem => ?_
    rcases List.mem_append.1 hmem with hmem | hmem
    · obtain ⟨hentry, hallowed⟩ := mem_free.1 (hsub.subset hmem)
      exact ⟨hentry, hallowed.2.1, hallowed.1⟩
    · obtain ⟨hentry, hreserved, hexclude, -⟩ := mem_held.1 hmem
      exact ⟨hentry, hexclude, hreserved⟩
  · intro entry hmem hheld
    exact (mem_free.1 (hsub.subset hmem)).2.2.2 (mem_held.1 hheld).2.2.2

/-- Of the preferred notes, filtering leaves the free ones. -/
theorem filter_prefer_perm {target : ℕ} {chosen : List (Entry Ref)} (hnodup : entries.Nodup)
    (hsub : chosen.Sublist (free source.reserved source.migrationLocks exclude entries))
    (hreach : target ≤
      total chosen + total (held source.reserved source.migrationLocks exclude entries)) :
    ((prefer (chosen ++ held source.reserved source.migrationLocks exclude entries)
      (outside (source.mergedExcludes exclude) entries) target).filter
        (!isLocked source.migrationLocks ·)).Perm chosen := by
  have hperm := filter_preferred_perm hnodup hsub
  have htotal := total_eq_of_perm hperm
  rw [total_append] at htotal
  rw [prefer, if_pos (htotal ▸ hreach)]
  refine (hperm.filter _).trans ?_
  have hchosen : chosen.filter (!isLocked source.migrationLocks ·) = chosen := by
    apply List.filter_eq_self.2
    intro entry hmem
    simpa using (mem_free.1 (hsub.subset hmem)).2.2.2
  have hheld : (held source.reserved source.migrationLocks exclude entries).filter
      (!isLocked source.migrationLocks ·) = [] := by
    apply List.filter_eq_nil_iff.2
    intro entry hmem
    simpa using (mem_held.1 hmem).2.2.2
  rw [List.filter_append, hchosen, hheld, List.append_nil]

/-- The free notes fit a target that is reached whatever notes the wallet prefers. -/
theorem fits_of_preferring {target : ℕ}
    (h : target ≤ total (free reserved migrationLocks exclude (store.spendable query sources)) →
      ∀ preferred, ∃ notes, ReservedInputSource.selectSpendableNotes
        (⟨.preferring store preferred, reserved, migrationLocks⟩ :
          ReservedInputSource Ref Query Mode Error) query (.atLeast target) sources exclude =
        .ok notes ∧ target ≤ total notes.entries) :
    Fits reserved migrationLocks exclude (store.spendable query sources) target := by
  intro hfree chosen hsub hreach
  let preferred := chosen ++ held reserved migrationLocks exclude (store.spendable query sources)
  let source : ReservedInputSource Ref Query Mode Error :=
    ⟨.preferring store preferred, reserved, migrationLocks⟩
  obtain ⟨notes, hnotes, htarget⟩ := h hfree preferred
  obtain rfl : source.withoutLocked _ = notes := Except.ok.inj hnotes
  have hperm := @filter_prefer_perm Ref Query Mode Error _ source exclude _ target chosen
    (store.nodup query sources) hsub hreach
  rw [entries_withoutLocked, total_eq_of_perm ((entries_ofEntries _).filter _),
    total_eq_of_perm hperm] at htarget
  exact htarget

/-- The source that hides notes meets its specification, whatever source the wallet has, exactly
when the free notes fit the target. -/
theorem reserved_selection_iff (store : NoteStore Ref Query) (reserved : Finset Ref)
    (migrationLocks : Finset (String × ℕ)) (exclude : List Ref) (query : Query)
    (targetValue : TargetValue Mode) (sources : List ShieldedPool) (value : ℕ)
    (pool : ShieldedPool) (maxAdditional : ℕ) :
    (∀ inner : InputSource Ref Query Mode Error, inner.Contract store →
      SelectionSpec store ⟨inner, reserved, migrationLocks⟩ query targetValue sources value pool
        maxAdditional exclude) ↔
    ∀ target, targetValue = .atLeast target →
      Fits reserved migrationLocks exclude (store.spendable query sources) target := by
  constructor
  · rintro hspec target rfl
    apply @fits_of_preferring Ref Query Mode Error
    intro hfree preferred
    exact (hspec _ (preferring_contract preferred)).reaches target rfl hfree
  · intro hfits inner hcontract
    exact {
      single := fun _ _ _ => single_allowed
      selected := fun _ => selected_allowed hcontract
      consolidated := fun _ _ => consolidated_allowed hcontract
      unspent := fun _ => unspent_allowed hcontract
      terminates := consolidation_terminates hcontract value maxAdditional
      reaches := fun target htarget hfree => by
        subst htarget
        exact selected_reaches hcontract (hfits target rfl) hfree
      consolidationReaches := consolidation_reaches hcontract }

end Selection

/-! ## A wallet with a locked note -/

def sampleStore : NoteStore ℕ Unit where
  spendable _ sources :=
    if .orchard ∈ sources then
      [(.orchard, ⟨1, "aa", 0, 10⟩), (.orchard, ⟨2, "aa", 1, 10⟩)]
    else []
  distinct _ sources := by
    split_ifs <;> simp [Entry.id]

/-- The wallet selects its first note when that reaches the target. -/
def sampleInner : InputSource ℕ Unit Unit String :=
  .preferring sampleStore [(.orchard, ⟨1, "aa", 0, 10⟩)]

theorem locked_note_selected : sampleInner.Contract sampleStore ∧
    ¬ SelectionSpec sampleStore ⟨sampleInner, ∅, {("aa".toLower, 0)}⟩ () (.atLeast 10) [.orchard]
      10 .orchard 0 [] := by
  refine ⟨preferring_contract _, fun hspec => ?_⟩
  have hfree :
      10 ≤ total (free ∅ {("aa".toLower, 0)} [] (sampleStore.spendable () [.orchard])) := by
    simp [sampleStore, free, total, Allowed, isLocked]
  obtain ⟨notes, hnotes, hreaches⟩ := hspec.reaches 10 rfl hfree
  obtain rfl := Except.ok.inj hnotes
  revert hreaches
  rw [entries_withoutLocked, total_eq_of_perm ((entries_ofEntries _).filter _)]
  simp [ReservedInputSource.mergedExcludes, sortDedup, outside, sampleStore, prefer, total,
    isLocked]

end VizorWallet.Send.Selection
