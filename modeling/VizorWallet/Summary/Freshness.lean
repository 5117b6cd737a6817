import VizorWallet.Library.Assoc
import VizorWallet.Summary.Cache

/-!
# Answers of the wallet summary cache

Whatever the order in which threads call the cache, write databases and evict, an answer is what was
last written to the database at some moment of the call, and is never older than an eviction before
it.

## Main definitions

* `Cache.Seen` — what was last written to a database at some moment of a call.
* `Cache.After` — a number of evictions that has all those before a call.
* `outline` — what holds of the cache, and what each thread knows.

## Main results

* `answers_fresh` — answers are what was last written at some moment of the call.
* `answers_after_evictions` — no answer was loaded before an eviction that preceded its call.
* `loads_shared` — calls that load one key at the same time have an eviction between them.
-/

namespace VizorWallet.Summary

open Migration.Store (WalletNetwork)

variable {α : Type}

/-! ## Where threads stand -/

/-- The call that a thread is in, and the slot that it has found. -/
def Phase.call : Phase α → Option Call
  | .looking call | .queued call _ | .checking call _ | .matched call _ _ | .missed call _
  | .loading call _ _ | .loaded call _ _ _ _ => some call
  | _ => none

def Phase.slot : Phase α → Option ℕ
  | .queued _ slot | .checking _ slot | .matched _ slot _ | .missed _ slot | .loading _ slot _
  | .loaded _ slot _ _ _ => some slot
  | _ => none

/-- The slot whose mutex a thread holds. -/
def Phase.holds : Phase α → Option ℕ
  | .checking _ slot | .matched _ slot _ | .missed _ slot | .loading _ slot _
  | .loaded _ slot _ _ _ => some slot
  | _ => none

/-- The parity of the epoch that a thread with the write lock relies on. -/
def Phase.parity : Phase α → Option ℕ
  | .locked | .leaving => some 0
  | .writing => some 1
  | _ => none

theorem Phase.slot_of_holds {phase : Phase α} {n : ℕ} (h : phase.holds = some n) :
    phase.slot = some n := by
  cases phase <;> first | exact h | cases h

theorem Phase.call_of_slot {n : ℕ} (phase : Phase α) (h : phase.slot = some n) :
    ∃ call, phase.call = some call := by
  cases phase <;> first | exact ⟨_, rfl⟩ | cases h

variable {s s' s'' : Cache α} {call : Call} {i j n : ℕ}

/-! ## What is recorded -/

/-- This was last written at some moment of the call, which ended after `last` writes. A load would
have given it then, unless the file was removed after that write. -/
def Cache.Seen (s : Cache α) (call : Call) (last : ℕ) (summary : α) : Prop :=
  ∃ writes contents, call.since ≤ writes ∧ writes ≤ last ∧ s.version writes = some contents ∧
    contents call.key = summary

/-- A number of evictions that has all those of the database before the call. -/
def Cache.After (s : Cache α) (call : Call) (evictions : ℕ) : Prop :=
  ∀ k < call.begun, s.evictions[k]? = some call.key.dbPath → k < evictions

/-- What is recorded of the past only grows. -/
structure Grows (s s' : Cache α) : Prop where
  lock : Seqlock.Steps s.lock s'.lock
  versions : s.earlier ++ [s.lock.value] <+: s'.earlier ++ [s'.lock.value]
  evictions : s.evictions <+: s'.evictions

theorem Grows.refl : Grows s s := ⟨.refl, List.prefix_refl _, List.prefix_refl _⟩

theorem Grows.trans (h : Grows s s') (h' : Grows s' s'') : Grows s s'' :=
  ⟨h.lock.trans h'.lock, h.versions.trans h'.versions, h.evictions.trans h'.evictions⟩

theorem Grows.ticks_le (h : Grows s s') : s.lock.ticks ≤ s'.lock.ticks :=
  Seqlock.le_ticks_of_steps h.lock

theorem Grows.earlier_le (h : Grows s s') : s.earlier.length ≤ s'.earlier.length := by
  have := h.versions.length_le
  simp only [List.length_append, List.length_singleton] at this
  omega

theorem Grows.seen (h : Grows s s') {last last' : ℕ} {summary : α} (hlast : last ≤ last')
    (hseen : s.Seen call last summary) : s'.Seen call last' summary := by
  obtain ⟨writes, contents, hsince, hwrites, hversion, hsummary⟩ := hseen
  obtain ⟨rest, hrest⟩ := h.versions
  refine ⟨writes, contents, hsince, hwrites.trans hlast, ?_, hsummary⟩
  rw [Cache.version, ← hrest, List.getElem?_append_left (List.getElem?_eq_some_iff.1 hversion).1]
  exact hversion

/-- Evictions keep their numbers. -/
theorem Grows.eviction (h : Grows s s') {k : ℕ} {dbPath : String}
    (hevicted : s.evictions[k]? = some dbPath) : s'.evictions[k]? = some dbPath := by
  obtain ⟨rest, hrest⟩ := h.evictions
  rw [← hrest, List.getElem?_append_left (List.getElem?_eq_some_iff.1 hevicted).1]
  exact hevicted

theorem Grows.after (h : Grows s s') {evictions : ℕ} (hbegun : call.begun ≤ s.evictions.length)
    (hafter : s.After call evictions) : s'.After call evictions := by
  obtain ⟨rest, hrest⟩ := h.evictions
  intro k hk hevicted
  rw [← hrest, List.getElem?_append_left (by omega)] at hevicted
  exact hafter k hk hevicted

/-- What a load gives now. -/
theorem seen_now (hsince : call.since ≤ s.earlier.length) :
    s.Seen call s.earlier.length (s.lock.value call.key) := by
  refine ⟨s.earlier.length, s.lock.value, hsince, le_rfl, ?_, rfl⟩
  rw [Cache.version, List.getElem?_concat_length]

/-! ## The invariant -/

/-- What is cached in a slot was read in its key while no write was going on, unless the epoch has
wrapped, and after the slot was made. -/
structure SlotSound (s : Cache α) (slot : EntrySlot α) : Prop where
  snapshot : s.lock.ticks < u64Size → ∀ cached ∈ slot.cached,
    Seqlock.Snapshot (fun contents => contents slot.key) u64Size cached.epoch cached.summary s.lock
  loadedAt : ∀ cached ∈ slot.cached, slot.born ≤ cached.loadedAt
  born : slot.born ≤ s.evictions.length

theorem SlotSound.grows {slot : EntrySlot α} (h : SlotSound s slot) (hgrows : Grows s s') :
    SlotSound s' slot where
  snapshot hlt cached hcached :=
    (h.snapshot (hgrows.ticks_le.trans_lt hlt) cached hcached).steps hgrows.lock
  loadedAt := h.loadedAt
  born := h.born.trans hgrows.evictions.length_le

/-- The slot of a key was made after all evictions of its database; slots that the map has lost were
evicted, before another slot was made for the key. -/
structure Invariant (s : Cache α) : Prop where
  even : s.writer = none → s.lock.ticks % 2 = 0
  sound : ∀ (n : ℕ) (slot : EntrySlot α), s.slots[n]? = some slot → SlotSound s slot
  map : ∀ key (n : ℕ), s.map.lookup key = some n →
    ∃ slot : EntrySlot α, s.slots[n]? = some slot ∧ slot.key = key ∧
      ∀ k : ℕ, s.evictions[k]? = some key.dbPath → k < slot.born
  mapped : ∀ (n : ℕ) (slot : EntrySlot α), s.slots[n]? = some slot →
    s.map.lookup slot.key = some n ∨ ∃ k : ℕ, slot.born ≤ k ∧ s.evictions[k]? = some slot.key.dbPath
  apart : ∀ (m n : ℕ) (old new : EntrySlot α), m < n → s.slots[m]? = some old →
    s.slots[n]? = some new → old.key = new.key → ∃ k : ℕ, old.born ≤ k ∧ k < new.born ∧
      s.evictions[k]? = some old.key.dbPath
  begun : ∀ answer ∈ s.answers, answer.call.begun ≤ s.evictions.length
  fresh : s.lock.ticks < u64Size → ∀ answer ∈ s.answers,
    s.Seen answer.call answer.writes answer.summary
  after : ∀ answer ∈ s.answers, s.After answer.call answer.loadedAt

/-! ## What threads know -/

/-- What a thread has read. -/
def Read (s : Cache α) : Phase α → Prop
  | .matched call _ entry =>
    (s.lock.ticks < u64Size → s.Seen call s.earlier.length entry.summary) ∧
      s.After call entry.loadedAt
  | .loading _ _ epochBefore => ∃ ticks ≤ s.lock.ticks, ticks % u64Size = epochBefore
  | .loaded call slot epochBefore summary loadedAt =>
    Seqlock.ReadSince (fun contents => contents call.key) u64Size epochBefore summary s.lock ∧
      s.Seen call s.earlier.length summary ∧ s.After call loadedAt ∧
      ∀ entry : EntrySlot α, s.slots[slot]? = some entry → entry.born ≤ loadedAt
  | _ => True

structure Known (i : ℕ) (s : Cache α) (phase : Phase α) : Prop where
  call : ∀ call ∈ phase.call, call.since ≤ s.earlier.length ∧ call.begun ≤ s.evictions.length
  slot : ∀ call ∈ phase.call, ∀ n ∈ phase.slot, ∃ slot : EntrySlot α,
    s.slots[n]? = some slot ∧ slot.key = call.key ∧ s.After call slot.born
  mutex : ∀ (n : ℕ) (slot : EntrySlot α), s.slots[n]? = some slot →
    (slot.owner = some i ↔ phase.holds = some n)
  writer : s.writer = some i ↔ phase.parity.isSome
  parity : ∀ odd ∈ phase.parity, s.lock.ticks % 2 = odd
  read : Read s phase

/-- What a thread relies on while others take steps. -/
structure Rely (j : ℕ) (s s' : Cache α) : Prop where
  grows : Grows s s'
  slots : ∀ (n : ℕ) (slot : EntrySlot α), s.slots[n]? = some slot →
    ∃ slot' : EntrySlot α, s'.slots[n]? = some slot' ∧
    slot'.key = slot.key ∧ slot'.born = slot.born ∧ (slot'.owner = some j ↔ slot.owner = some j)
  new : ∀ (n : ℕ) (slot' : EntrySlot α), s'.slots[n]? = some slot' → s.slots[n]? = none →
    slot'.owner ≠ some j
  writer : s'.writer = some j ↔ s.writer = some j
  lock : s.writer = some j → s'.lock = s.lock

theorem Rely.refl : Rely j s s where
  grows := .refl
  slots _ slot h := ⟨slot, h, rfl, rfl, Iff.rfl⟩
  new _ _ h hnone := by
    rw [h] at hnone
    cases hnone
  writer := Iff.rfl
  lock _ := rfl

theorem Rely.trans (h : Rely j s s') (h' : Rely j s' s'') : Rely j s s'' where
  grows := h.grows.trans h'.grows
  slots n slot hslot := by
    obtain ⟨slot', hslot', hkey, hborn, howner⟩ := h.slots n slot hslot
    obtain ⟨slot'', hslot'', hkey', hborn', howner'⟩ := h'.slots n slot' hslot'
    exact ⟨slot'', hslot'', hkey'.trans hkey, hborn'.trans hborn, howner'.trans howner⟩
  new n slot'' hslot'' hnone := by
    cases hmiddle : s'.slots[n]? with
    | none => exact h'.new n slot'' hslot'' hmiddle
    | some slot' =>
      obtain ⟨_, hsame, -, -, howner⟩ := h'.slots n slot' hmiddle
      obtain rfl := Option.some.inj (hsame.symm.trans hslot'')
      exact mt howner.1 (h.new n slot' hmiddle hnone)
  writer := h'.writer.trans h.writer
  lock hwriter := (h'.lock (h.writer.2 hwriter)).trans (h.lock hwriter)

theorem Read.rely {phase : Phase α} (h : Read s phase) (hrely : Rely j s s')
    (hcall : ∀ call ∈ phase.call, call.begun ≤ s.evictions.length)
    (hslot : ∀ n ∈ phase.slot, ∃ slot : EntrySlot α, s.slots[n]? = some slot) : Read s' phase := by
  have hle := hrely.grows.ticks_le
  cases phase with
  | matched call slot entry =>
    exact ⟨fun hlt => hrely.grows.seen hrely.grows.earlier_le (h.1 (by omega)),
      hrely.grows.after (hcall call rfl) h.2⟩
  | loading call slot epochBefore =>
    obtain ⟨ticks, hticks, hepoch⟩ := h
    exact ⟨ticks, hticks.trans hle, hepoch⟩
  | loaded call slot epochBefore summary loadedAt =>
    obtain ⟨hread, hseen, hafter, hborn⟩ := h
    refine ⟨hread.steps hrely.grows.lock, hrely.grows.seen hrely.grows.earlier_le hseen,
      hrely.grows.after (hcall call rfl) hafter, fun entry' hentry' => ?_⟩
    obtain ⟨entry, hentry⟩ := hslot slot rfl
    obtain ⟨_, hsame, -, hborn', -⟩ := hrely.slots slot entry hentry
    obtain rfl := Option.some.inj (hsame.symm.trans hentry')
    exact hborn' ▸ hborn entry hentry
  | idle => trivial
  | looking => trivial
  | queued => trivial
  | checking => trivial
  | missed => trivial
  | entering => trivial
  | locked => trivial
  | writing => trivial
  | leaving => trivial

/-- What a thread knows stays true while others take steps. -/
theorem Known.rely {phase : Phase α} (h : Known j s phase) (hrely : Rely j s s') :
    Known j s' phase where
  call call hcall :=
    ⟨(h.call call hcall).1.trans hrely.grows.earlier_le,
      (h.call call hcall).2.trans hrely.grows.evictions.length_le⟩
  slot call hcall n hn := by
    obtain ⟨slot, hslot, hkey, hafter⟩ := h.slot call hcall n hn
    obtain ⟨slot', hslot', hkey', hborn, -⟩ := hrely.slots n slot hslot
    exact ⟨slot', hslot', hkey'.trans hkey,
      hborn ▸ hrely.grows.after (h.call call hcall).2 hafter⟩
  mutex n slot' hslot' := by
    cases hold : s.slots[n]? with
    | some slot =>
      obtain ⟨_, hsame, -, -, howner⟩ := hrely.slots n slot hold
      obtain rfl := Option.some.inj (hsame.symm.trans hslot')
      exact howner.trans (h.mutex n slot hold)
    | none =>
      refine iff_of_false (hrely.new n slot' hslot' hold) fun hholds => ?_
      obtain ⟨call, hcall⟩ := phase.call_of_slot (Phase.slot_of_holds hholds)
      obtain ⟨slot, hslot, -⟩ := h.slot call hcall n (Phase.slot_of_holds hholds)
      rw [hold] at hslot
      cases hslot
  writer := hrely.writer.trans h.writer
  parity odd hodd := by
    rw [hrely.lock (h.writer.2 (Option.isSome_of_mem hodd))]
    exact h.parity odd hodd
  read := by
    refine h.read.rely hrely (fun call hcall => (h.call call hcall).2) fun n hn => ?_
    obtain ⟨call, hcall⟩ := phase.call_of_slot hn
    obtain ⟨slot, hslot, -⟩ := h.slot call hcall n hn
    exact ⟨slot, hslot⟩

/-! ## Accesses -/

/-- An access keeps the invariant, and what every other thread relies on. -/
structure Access (i : ℕ) (s s' : Cache α) : Prop where
  invariant : Invariant s'
  rely : ∀ j, j ≠ i → Rely j s s'

theorem Access.trans (h : Access i s s') (h' : Access i s' s'') : Access i s s'' :=
  ⟨h'.invariant, fun j hj => (h.rely j hj).trans (h'.rely j hj)⟩

theorem Access.refl (h : Invariant s) : Access i s s := ⟨h, fun _ _ => .refl⟩

/-- An invariant of a state in which only what slots hold is different. -/
theorem Invariant.setSlot {f : EntrySlot α → EntrySlot α} (h : Invariant s)
    (hf : ∀ slot, s.slots[n]? = some slot →
      (f slot).key = slot.key ∧ (f slot).born = slot.born ∧ SlotSound s (f slot)) :
    Invariant (s.setSlot n f) := by
  have hslots (m : ℕ) : (s.setSlot n f).slots[m]? =
      (s.slots[m]?).map fun slot => if n = m then f slot else slot := by
    rw [Cache.setSlot, List.getElem?_modify]
    split_ifs <;> simp
  have hof {m : ℕ} {slot' : EntrySlot α} (hslot' : (s.setSlot n f).slots[m]? = some slot') :
      ∃ slot, s.slots[m]? = some slot ∧ slot'.key = slot.key ∧ slot'.born = slot.born ∧
        SlotSound s slot' := by
    rw [hslots, Option.map_eq_some_iff] at hslot'
    obtain ⟨slot, hslot, rfl⟩ := hslot'
    split_ifs with hnm
    · subst hnm
      obtain ⟨hkey, hborn, hsound⟩ := hf slot hslot
      exact ⟨slot, hslot, hkey, hborn, hsound⟩
    · exact ⟨slot, hslot, rfl, rfl, h.sound m slot hslot⟩
  refine ⟨h.even, fun m slot' hslot' => ?_, fun key m hlookup => ?_, fun m slot' hslot' => ?_,
    fun m m' old' new' hlt hold' hnew' hkey => ?_, h.begun, h.fresh, h.after⟩
  · obtain ⟨slot, -, -, -, hsound⟩ := hof hslot'
    exact ⟨hsound.snapshot, hsound.loadedAt, hsound.born⟩
  · obtain ⟨slot, hslot, hkey, hborn⟩ := h.map key m hlookup
    refine ⟨_, by rw [hslots, hslot, Option.map_some], ?_, ?_⟩
    · split_ifs with hnm
      · exact (hf slot (hnm ▸ hslot)).1.trans hkey
      · exact hkey
    · split_ifs with hnm
      · rw [(hf slot (hnm ▸ hslot)).2.1]
        exact hborn
      · exact hborn
  · obtain ⟨slot, hslot, hkey, hborn, -⟩ := hof hslot'
    rw [hkey, hborn]
    exact h.mapped m slot hslot
  · obtain ⟨old, hold, hkeyOld, hbornOld, -⟩ := hof hold'
    obtain ⟨new, hnew, hkeyNew, hbornNew, -⟩ := hof hnew'
    rw [hkeyOld, hbornOld, hbornNew]
    exact h.apart m m' old new hlt hold hnew (hkeyOld ▸ hkeyNew ▸ hkey)

/-- The mutex of a slot is taken or given back, or what the slot holds changes. -/
theorem access_setSlot {f : EntrySlot α → EntrySlot α} (h : Invariant s)
    (hf : ∀ slot, s.slots[n]? = some slot →
      (f slot).key = slot.key ∧ (f slot).born = slot.born ∧ SlotSound s (f slot))
    (howner : ∀ slot j, s.slots[n]? = some slot → j ≠ i →
      ((f slot).owner = some j ↔ slot.owner = some j)) :
    Access i s (s.setSlot n f) := by
  refine ⟨h.setSlot hf, fun j hj => ⟨⟨.refl, List.prefix_refl _, List.prefix_refl _⟩,
    fun m slot hslot => ?_, fun m slot' hslot' hnone => ?_, Iff.rfl, fun _ => rfl⟩⟩
  · rw [Cache.setSlot, List.getElem?_modify, hslot]
    by_cases hnm : n = m
    · subst hnm
      obtain ⟨hkey, hborn, -⟩ := hf slot hslot
      exact ⟨f slot, by simp, hkey, hborn, howner slot j hslot hj⟩
    · exact ⟨slot, by simp [hnm], rfl, rfl, Iff.rfl⟩
  · rw [Cache.setSlot, List.getElem?_modify, hnone] at hslot'
    cases hslot'

theorem access_answer {summary : α} {loadedAt : ℕ} (h : Invariant s)
    (hbegun : call.begun ≤ s.evictions.length)
    (hseen : s.lock.ticks < u64Size → s.Seen call s.earlier.length summary)
    (hafter : s.After call loadedAt) : Access i s (s.answer call summary loadedAt) := by
  have hmem {answer : Answer α} (hanswer : answer ∈ (s.answer call summary loadedAt).answers) :
      answer ∈ s.answers ∨ answer = ⟨call, summary, s.earlier.length, loadedAt⟩ := by
    obtain hold | hnew := List.mem_append.1 hanswer
    · exact .inl hold
    · exact .inr (List.mem_singleton.1 hnew)
  refine ⟨⟨h.even, fun n slot hslot => ?_, h.map, h.mapped, h.apart, fun answer hanswer => ?_,
    fun hlt answer hanswer => ?_, fun answer hanswer => ?_⟩, fun j _ => ?_⟩
  · exact ⟨(h.sound n slot hslot).snapshot, (h.sound n slot hslot).loadedAt,
      (h.sound n slot hslot).born⟩
  · obtain hold | rfl := hmem hanswer
    · exact h.begun answer hold
    · exact hbegun
  · obtain hold | rfl := hmem hanswer
    · exact h.fresh hlt answer hold
    · exact hseen hlt
  · obtain hold | rfl := hmem hanswer
    · exact h.after answer hold
    · exact hafter
  · exact ⟨⟨.refl, List.prefix_refl _, List.prefix_refl _⟩,
      fun _ slot hslot => ⟨slot, hslot, rfl, rfl, Iff.rfl⟩,
      fun _ _ hslot hnone => absurd (hnone.symm.trans hslot) (Option.some_ne_none _).symm,
      Iff.rfl, fun _ => rfl⟩

/-- An access that leaves the slots and the map as they are. -/
theorem Invariant.grows (h : Invariant s) (hgrows : Grows s s') (hslots : s'.slots = s.slots)
    (hmap : s'.map = s.map) (hevictions : s'.evictions = s.evictions)
    (hanswers : s'.answers = s.answers)
    (heven : s'.writer = none → s'.lock.ticks % 2 = 0) : Invariant s' where
  even := heven
  sound n slot hslot := (h.sound n slot (hslots ▸ hslot)).grows hgrows
  map := by
    rw [hslots, hmap, hevictions]
    exact h.map
  mapped := by
    rw [hslots, hmap, hevictions]
    exact h.mapped
  apart := by
    rw [hslots, hevictions]
    exact h.apart
  begun := by
    rw [hanswers, hevictions]
    exact h.begun
  fresh hlt answer hanswer := by
    rw [hanswers] at hanswer
    exact hgrows.seen le_rfl (h.fresh (hgrows.ticks_le.trans_lt hlt) answer hanswer)
  after answer hanswer := by
    rw [hanswers] at hanswer
    exact hgrows.after (h.begun answer hanswer) (h.after answer hanswer)

theorem rely_of_slots (hgrows : Grows s s') (hslots : s'.slots = s.slots)
    (hwriter : s'.writer = some j ↔ s.writer = some j)
    (hlock : s.writer = some j → s'.lock = s.lock) : Rely j s s' where
  grows := hgrows
  slots n slot hslot := ⟨slot, hslots ▸ hslot, rfl, rfl, Iff.rfl⟩
  new n slot' hslot' hnone := by
    rw [hslots, hnone] at hslot'
    cases hslot'
  writer := hwriter
  lock := hlock

theorem access_setFile (h : Invariant s) (dbPath : String) (file : DbFile) :
    Access i s (s.setFile dbPath file) :=
  have hgrows : Grows s (s.setFile dbPath file) :=
    ⟨.refl, List.prefix_refl _, List.prefix_refl _⟩
  ⟨h.grows hgrows rfl rfl rfl rfl h.even,
    fun _ _ => rely_of_slots hgrows rfl Iff.rfl fun _ => rfl⟩

/-- A writer makes the epoch odd or even. -/
theorem access_tick (h : Invariant s) (hwriter : s.writer = some i) : Access i s s.tick := by
  have hgrows : Grows s s.tick := ⟨.single (.tick s.lock), List.prefix_refl _, List.prefix_refl _⟩
  refine ⟨h.grows hgrows rfl rfl rfl rfl fun hnone => ?_, fun j hj =>
    rely_of_slots hgrows rfl Iff.rfl fun hj' => ?_⟩
  · rw [Cache.tick, hwriter] at hnone
    cases hnone
  · exact absurd (Option.some.inj (hwriter.symm.trans hj')).symm hj

theorem access_write (h : Invariant s) (hwriter : s.writer = some i) (hodd : s.lock.ticks % 2 = 1)
    (dbPath : String) (contents : WalletNetwork → α) : Access i s (s.write dbPath contents) := by
  have hgrows : Grows s (s.write dbPath contents) :=
    ⟨.single (.write s.lock _ hodd), List.prefix_append _ _, List.prefix_refl _⟩
  refine ⟨h.grows hgrows rfl rfl rfl rfl fun hnone => ?_, fun j hj =>
    rely_of_slots hgrows rfl Iff.rfl fun hj' => ?_⟩
  · rw [Cache.write, Cache.setFile, hwriter] at hnone
    cases hnone
  · exact absurd (Option.some.inj (hwriter.symm.trans hj')).symm hj

theorem access_enter (h : Invariant s) (hwriter : s.writer = none) :
    Access i s { s with writer := some i } := by
  have hgrows : Grows s { s with writer := some i } :=
    ⟨.refl, List.prefix_refl _, List.prefix_refl _⟩
  refine ⟨h.grows hgrows rfl rfl rfl rfl fun hnone => (by cases hnone),
    fun j hj => rely_of_slots hgrows rfl ?_ fun _ => rfl⟩
  rw [hwriter, Option.some_inj]
  exact iff_of_false (Ne.symm hj) (by simp)

theorem access_leave (h : Invariant s) (hwriter : s.writer = some i)
    (heven : s.lock.ticks % 2 = 0) : Access i s { s with writer := none } := by
  have hgrows : Grows s { s with writer := none } :=
    ⟨.refl, List.prefix_refl _, List.prefix_refl _⟩
  refine ⟨h.grows hgrows rfl rfl rfl rfl fun _ => heven, fun j hj =>
    rely_of_slots hgrows rfl ?_ fun _ => rfl⟩
  rw [hwriter, Option.some_inj]
  exact iff_of_false (by simp) (Ne.symm hj)

/-- The slot of a key, which is made when the map has none. -/
theorem slotFor_spec (h : Invariant s) (key : CacheKey) :
    Invariant (s.slotFor key).1 ∧ (∀ j, Rely j s (s.slotFor key).1) ∧
      ∃ slot, (s.slotFor key).1.slots[(s.slotFor key).2]? = some slot ∧ slot.key = key ∧
        ∀ k, s.evictions[k]? = some key.dbPath → k < slot.born := by
  cases hlookup : s.map.lookup key with
  | some n =>
    rw [Cache.slotFor, hlookup]
    exact ⟨h, fun _ => .refl, h.map key n hlookup⟩
  | none =>
    rw [Cache.slotFor, hlookup]
    set slot : EntrySlot α := ⟨none, none, key, s.evictions.length⟩ with hslot
    have hgrows : Grows s { s with
        map := (key, s.slots.length) :: s.map, slots := s.slots ++ [slot] } :=
      ⟨.refl, List.prefix_refl _, List.prefix_refl _⟩
    have hnew : (s.slots ++ [slot])[s.slots.length]? = some slot := List.getElem?_concat_length
    have hold {m : ℕ} {entry : EntrySlot α} (hentry : s.slots[m]? = some entry) :
        (s.slots ++ [slot])[m]? = some entry := by
      rw [List.getElem?_append_left (List.getElem?_eq_some_iff.1 hentry).1]
      exact hentry
    have hof {m : ℕ} {entry : EntrySlot α} (hentry : (s.slots ++ [slot])[m]? = some entry) :
        s.slots[m]? = some entry ∨ m = s.slots.length ∧ entry = slot := by
      obtain hlt | heq | hgt := Nat.lt_trichotomy m s.slots.length
      · exact .inl (List.getElem?_append_left hlt ▸ hentry)
      · subst heq
        exact .inr ⟨rfl, Option.some.inj (hentry.symm.trans hnew)⟩
      · rw [List.getElem?_eq_none (by simp; omega)] at hentry
        cases hentry
    have hevicted {k : ℕ} (hk : s.evictions[k]? = some key.dbPath) : k < slot.born :=
      (List.getElem?_eq_some_iff.1 hk).1
    -- a slot of the key that the map has lost was evicted
    have hlost {m : ℕ} {entry : EntrySlot α} (hentry : s.slots[m]? = some entry)
        (hkey : entry.key = key) :
        ∃ k, entry.born ≤ k ∧ s.evictions[k]? = some entry.key.dbPath := by
      obtain hmapped | hgone := h.mapped m entry hentry
      · rw [hkey, hlookup] at hmapped
        cases hmapped
      · exact hgone
    refine ⟨⟨h.even, fun m entry hentry => ?_, fun key' m hmap => ?_, fun m entry hentry => ?_,
      fun m m' old new hlt hold' hnew' hkey => ?_, h.begun, h.fresh, h.after⟩, fun j => ⟨hgrows,
      fun m entry hentry => ⟨entry, hold hentry, rfl, rfl, Iff.rfl⟩, fun m entry hentry hnone => ?_,
      Iff.rfl, fun _ => rfl⟩, slot, hnew, rfl, fun k => hevicted⟩
    · obtain hentry | ⟨rfl, rfl⟩ := hof hentry
      · exact (h.sound m entry hentry).grows hgrows
      · exact ⟨fun _ _ hcached => (by cases hcached), fun _ hcached => (by cases hcached), le_rfl⟩
    · by_cases hkey : key' = key
      · subst hkey
        rw [List.lookup_cons_self, Option.some_inj] at hmap
        subst hmap
        exact ⟨slot, hnew, rfl, fun k => hevicted⟩
      · rw [List.lookup_cons, beq_false_of_ne hkey] at hmap
        obtain ⟨entry, hentry, hentryKey⟩ := h.map key' m hmap
        exact ⟨entry, hold hentry, hentryKey⟩
    · obtain hentry | ⟨rfl, rfl⟩ := hof hentry
      · by_cases hkey : entry.key = key
        · exact .inr (hlost hentry hkey)
        · rw [List.lookup_cons, beq_false_of_ne hkey]
          exact h.mapped m entry hentry
      · exact .inl List.lookup_cons_self
    · obtain hold' | ⟨rfl, rfl⟩ := hof hold' <;> obtain hnew' | ⟨rfl, rfl⟩ := hof hnew'
      · exact h.apart m m' old new hlt hold' hnew' hkey
      · obtain ⟨k, hborn, hk⟩ := hlost hold' hkey
        exact ⟨k, hborn, (List.getElem?_eq_some_iff.1 hk).1, hk⟩
      · have := (List.getElem?_eq_some_iff.1 hnew').1
        omega
      · omega
    · obtain hentry | ⟨rfl, rfl⟩ := hof hentry
      · rw [hnone] at hentry
        cases hentry
      · exact (Option.some_ne_none j).symm

theorem access_evictDb (h : Invariant s) (dbPath : String) : Access i s (s.evictDb dbPath) := by
  have hgrows : Grows s (s.evictDb dbPath) :=
    ⟨.refl, List.prefix_refl _, List.prefix_append _ _⟩
  have hlookup (key : CacheKey) : (s.evictDb dbPath).map.lookup key =
      if key.dbPath ≠ dbPath then s.map.lookup key else none := by
    refine (lookup_filter_key (fun key : CacheKey => decide (key.dbPath ≠ dbPath)) s.map key).trans
      ?_
    simp only [decide_eq_true_eq]
  refine ⟨⟨h.even, fun n slot hslot => (h.sound n slot hslot).grows hgrows,
    fun key n hmap => ?_, fun n slot hslot => ?_, fun m n old new hlt hold hnew hkey => ?_,
    fun answer hanswer => (h.begun answer hanswer).trans hgrows.evictions.length_le,
    fun hlt answer hanswer => hgrows.seen le_rfl (h.fresh hlt answer hanswer),
    fun answer hanswer => hgrows.after (h.begun answer hanswer) (h.after answer hanswer)⟩,
    fun _ _ => rely_of_slots hgrows rfl Iff.rfl fun _ => rfl⟩
  · rw [hlookup] at hmap
    split_ifs at hmap with hpath
    obtain ⟨slot, hslot, hslotKey, hborn⟩ := h.map key n hmap
    refine ⟨slot, hslot, hslotKey, fun k hk => ?_⟩
    obtain hlt | heq | hgt := Nat.lt_trichotomy k s.evictions.length
    · exact hborn k (by rwa [Cache.evictDb, List.getElem?_append_left hlt] at hk)
    · subst heq
      rw [Cache.evictDb, List.getElem?_concat_length, Option.some_inj] at hk
      exact absurd hk.symm hpath
    · rw [Cache.evictDb, List.getElem?_eq_none (by simp; omega)] at hk
      cases hk
  · rw [hlookup]
    split_ifs with hpath
    · obtain hmapped | ⟨k, hborn, hk⟩ := h.mapped n slot hslot
      · exact .inl hmapped
      · exact .inr ⟨k, hborn, hgrows.eviction hk⟩
    · refine .inr ⟨s.evictions.length, (h.sound n slot hslot).born, ?_⟩
      rw [Cache.evictDb, List.getElem?_concat_length, not_not.1 hpath]
  · obtain ⟨k, hborn, hlt', hk⟩ := h.apart m n old new hlt hold hnew hkey
    exact ⟨k, hborn, hlt', hgrows.eviction hk⟩

/-! ## Steps -/

/-- What holds of the cache, and what each thread knows. -/
def outline : Outline (Cache α) (Phase α) := ⟨Invariant, Known⟩

/-- An access after which the thread that made it knows what it should keeps the outline. -/
theorem Access.kept {phase' : Phase α} (h : Access i s s') (hknown : Known i s' phase') :
    outline.Kept i s s' phase' :=
  ⟨h.invariant, hknown, fun j _ hj hother => hother.rely (h.rely j hj)⟩

/-- A thread goes on without a change of what is shared. -/
theorem Known.same {phase phase' : Phase α} (h : Known i s phase)
    (hcall : ∀ call ∈ phase'.call, call ∈ phase.call)
    (hslot : ∀ n ∈ phase'.slot, n ∈ phase.slot) (hholds : phase'.holds = phase.holds)
    (hparity : phase'.parity = phase.parity) (hread : Read s phase') : Known i s phase' where
  call call h' := h.call call (hcall call h')
  slot call h' n hn := h.slot call (hcall call h') n (hslot n hn)
  mutex := hholds ▸ h.mutex
  writer := hparity ▸ h.writer
  parity := hparity ▸ h.parity
  read := hread

/-- A thread takes or gives back the mutex of a slot, or changes what the slot holds. -/
theorem Known.setSlot {phase phase' : Phase α} {f : EntrySlot α → EntrySlot α} (h : Known i s phase)
    (hf : ∀ slot, s.slots[n]? = some slot → (f slot).key = slot.key ∧ (f slot).born = slot.born)
    (hcall : ∀ call ∈ phase'.call, call ∈ phase.call)
    (hslot : ∀ n ∈ phase'.slot, n ∈ phase.slot) (hparity : phase'.parity = phase.parity)
    (howner : ∀ slot, s.slots[n]? = some slot →
      ((f slot).owner = some i ↔ phase'.holds = some n))
    (hothers : ∀ m, m ≠ n → (phase'.holds = some m ↔ phase.holds = some m))
    (hread : Read (s.setSlot n f) phase') : Known i (s.setSlot n f) phase' where
  call call h' := h.call call (hcall call h')
  slot call h' m hm := by
    obtain ⟨slot, hm', hkey, hafter⟩ := h.slot call (hcall call h') m (hslot m hm)
    rw [Cache.setSlot, List.getElem?_modify, hm']
    by_cases hnm : n = m
    · subst hnm
      obtain ⟨hkey', hborn⟩ := hf slot hm'
      exact ⟨f slot, by simp, hkey'.trans hkey, hborn ▸ hafter⟩
    · exact ⟨slot, by simp [hnm], hkey, hafter⟩
  mutex m slot' hslot' := by
    rw [Cache.setSlot, List.getElem?_modify, Option.map_eq_map, Option.map_eq_some_iff] at hslot'
    obtain ⟨slot, hm, rfl⟩ := hslot'
    split_ifs with hnm
    · subst hnm
      exact howner slot hm
    · rw [hothers m (Ne.symm hnm)]
      exact h.mutex m slot hm
  writer := hparity ▸ h.writer
  parity := hparity ▸ h.parity
  read := hread

theorem rely_evictDb (dbPath : String) : Rely j s (s.evictDb dbPath) :=
  rely_of_slots ⟨.refl, List.prefix_refl _, List.prefix_append _ _⟩ rfl Iff.rfl fun _ => rfl

theorem rely_setFile (dbPath : String) (file : DbFile) : Rely j s (s.setFile dbPath file) :=
  rely_of_slots ⟨.refl, List.prefix_refl _, List.prefix_refl _⟩ rfl Iff.rfl fun _ => rfl

theorem rely_answer (call : Call) (summary : α) (loadedAt : ℕ) :
    Rely j s (s.answer call summary loadedAt) :=
  rely_of_slots ⟨.refl, List.prefix_refl _, List.prefix_refl _⟩ rfl Iff.rfl fun _ => rfl

/-- The epoch has the parity of the count. -/
theorem epoch_mod_two (s : Cache α) : s.epoch % 2 = s.lock.ticks % 2 :=
  Nat.mod_mod_of_dvd _ (by decide)

/-- What a thread knows outside calls. -/
theorem known_outside {phase : Phase α} (hcall : phase.call = none) (hholds : phase.holds = none)
    (hmutex : ∀ (n : ℕ) (slot : EntrySlot α), s.slots[n]? = some slot → slot.owner ≠ some i)
    (hwriter : s.writer = some i ↔ phase.parity.isSome)
    (hparity : ∀ odd ∈ phase.parity, s.lock.ticks % 2 = odd) : Known i s phase where
  call call h := by rw [hcall] at h; cases h
  slot call h := by rw [hcall] at h; cases h
  mutex n slot hslot := by
    rw [hholds]
    exact iff_of_false (hmutex n slot hslot) (Option.some_ne_none n).symm
  writer := hwriter
  parity := hparity
  read := by
    cases phase <;> trivial

theorem Known.not_owner {phase : Phase α} (h : Known i s phase) (hholds : phase.holds = none)
    (n : ℕ) (slot : EntrySlot α) (hslot : s.slots[n]? = some slot) : slot.owner ≠ some i := by
  rw [ne_eq, h.mutex n slot hslot, hholds]
  exact (Option.some_ne_none n).symm

/-- The mutex of a slot is given back. -/
theorem release {phase : Phase α} (cached : EntrySlot α → Option (CacheEntry α))
    (hinv : Invariant s) (h : Known i s phase) (hholds : phase.holds = some n)
    (hparity : phase.parity = none)
    (hsound : ∀ slot, s.slots[n]? = some slot →
      SlotSound s { slot with cached := cached slot, owner := none }) :
    Access i s (s.setSlot n fun slot => { slot with cached := cached slot, owner := none }) ∧
      Known i (s.setSlot n fun slot => { slot with cached := cached slot, owner := none })
        .idle := by
  constructor
  · refine access_setSlot hinv (fun slot hslot => ⟨rfl, rfl, hsound slot hslot⟩)
      fun slot j hslot hj => iff_of_false (Option.some_ne_none j).symm fun howner => ?_
    rw [(h.mutex n slot hslot).2 hholds, Option.some_inj] at howner
    exact hj howner.symm
  · refine known_outside rfl rfl (fun m slot' hslot' => ?_) ?_ fun _ hodd => by cases hodd
    · rw [Cache.setSlot, List.getElem?_modify, Option.map_eq_map, Option.map_eq_some_iff] at hslot'
      obtain ⟨slot, hslot, rfl⟩ := hslot'
      split_ifs with hnm
      · exact (Option.some_ne_none i).symm
      · rw [ne_eq, h.mutex m slot hslot, hholds, Option.some_inj]
        exact hnm
    · change s.writer = some i ↔ _
      rw [h.writer, hparity]
      rfl

/-- A summary is returned, and the mutex of the slot is given back. -/
theorem kept_return {phase : Phase α} (cached : EntrySlot α → Option (CacheEntry α))
    {summary : α} {loadedAt : ℕ} (hinv : Invariant s) (h : Known i s phase)
    (hcall : phase.call = some call)
    (hholds : phase.holds = some n) (hparity : phase.parity = none)
    (hsound : ∀ slot, s.slots[n]? = some slot →
      SlotSound s { slot with cached := cached slot, owner := none })
    (hseen : s.lock.ticks < u64Size → s.Seen call s.earlier.length summary)
    (hafter : s.After call loadedAt) :
    outline.Kept i s ((s.setSlot n fun slot =>
      { slot with cached := cached slot, owner := none }).answer call summary loadedAt) .idle := by
  obtain ⟨hset, hidle⟩ := release cached hinv h hholds hparity hsound
  exact (hset.trans (access_answer hset.invariant (h.call call hcall).2 hseen hafter)).kept
    (hidle.rely (rely_answer call summary loadedAt))

/-- A cached summary is dropped. -/
theorem kept_drop {phase phase' : Phase α} (hinv : Invariant s) (h : Known i s phase)
    (hcall : phase'.call = phase.call) (hslot : phase'.slot = phase.slot)
    (hholds : phase'.holds = phase.holds) (hparity : phase'.parity = phase.parity)
    (hread : Read (s.setSlot n ({ · with cached := none })) phase') :
    outline.Kept i s (s.setSlot n ({ · with cached := none })) phase' := by
  have haccess : Access i s (s.setSlot n ({ · with cached := none })) :=
    access_setSlot hinv (fun slot hslot => ⟨rfl, rfl, fun _ _ hcached => (by cases hcached),
      fun _ hcached => (by cases hcached), (hinv.sound n slot hslot).born⟩)
      fun _ _ _ _ => Iff.rfl
  refine haccess.kept (h.setSlot (fun _ _ => ⟨rfl, rfl⟩) (fun _ h' => hcall ▸ h')
    (fun _ h' => hslot ▸ h') hparity (fun slot hslot => ?_) (fun m _ => hholds ▸ Iff.rfl) hread)
  rw [hholds]
  exact h.mutex n slot hslot

/-- A call takes the slot of its key. -/
theorem looking_kept {phase' : Phase α} (hinv : Invariant s)
    (h : Known i s (.looking call))
    (hnext : next i s (.looking call) = some (s', phase')) :
    outline.Kept i s s' phase' := by
  obtain ⟨hinv', hrely, slot, hslot, hkey, hborn⟩ := slotFor_spec hinv call.key
  obtain ⟨rfl, rfl⟩ := Prod.mk.inj (Option.some.inj hnext)
  have hsame := h.rely (hrely i)
  refine Access.kept ⟨hinv', fun j _ => hrely j⟩ { hsame with
    call := fun _ hcall => hsame.call _ hcall
    slot := fun _ hcall _ hn => ?_
    read := trivial }
  obtain rfl := Option.some.inj hcall
  obtain rfl := Option.some.inj hn
  refine ⟨slot, hslot, hkey, (hrely i).grows.after (h.call call rfl).2 ?_⟩
  exact fun k _ hk => hborn k hk

/-- A call takes the mutex of its slot. -/
theorem queued_kept {slot : ℕ} {phase' : Phase α} (hinv : Invariant s)
    (h : Known i s (.queued call slot))
    (hnext : next i s (.queued call slot) = some (s', phase')) :
    outline.Kept i s s' phase' := by
  obtain ⟨entry, hentry, hnext⟩ := Option.bind_eq_some_iff.1 hnext
  split_ifs at hnext with hfree
  obtain ⟨rfl, rfl⟩ := Prod.mk.inj (Option.some.inj hnext)
  have haccess : Access i s (s.setSlot slot ({ · with owner := some i })) := by
    refine access_setSlot hinv (fun slot' hslot' => ⟨rfl, rfl, ?_⟩) fun slot' j hslot' hj => ?_
    · have hsound := hinv.sound slot slot' hslot'
      exact ⟨hsound.snapshot, hsound.loadedAt, hsound.born⟩
    · obtain rfl := Option.some.inj (hentry.symm.trans hslot')
      rw [hfree, Option.some_inj]
      exact iff_of_false (Ne.symm hj) fun heq => by cases heq
  refine haccess.kept (h.setSlot (fun _ _ => ⟨rfl, rfl⟩) (fun _ h' => h') (fun _ h' => h') rfl
    (fun _ _ => iff_of_true rfl rfl) (fun m hm => ?_) trivial)
  exact iff_of_false (fun heq => hm (Option.some.inj heq).symm) fun heq => by cases heq

/-- A call looks into its slot. -/
theorem checking_kept {slot : ℕ} {phase' : Phase α} (hinv : Invariant s)
    (h : Known i s (.checking call slot))
    (hnext : next i s (.checking call slot) = some (s', phase')) :
    outline.Kept i s s' phase' := by
  obtain ⟨entry, hentry, hnext⟩ := Option.bind_eq_some_iff.1 hnext
  cases hcached : entry.cached with
  | none =>
    rw [hcached] at hnext
    obtain ⟨rfl, rfl⟩ := Prod.mk.inj (Option.some.inj hnext)
    exact (Access.refl hinv).kept (h.same (fun _ h' => h') (fun _ h' => h') rfl rfl trivial)
  | some cached =>
    simp only [hcached] at hnext
    split_ifs at hnext with hhit
    · obtain ⟨rfl, rfl⟩ := Prod.mk.inj (Option.some.inj hnext)
      obtain ⟨slot', hslot', hkey, hafter⟩ := h.slot call rfl slot rfl
      obtain rfl := Option.some.inj (hentry.symm.trans hslot')
      have hsound := hinv.sound slot entry hentry
      refine (Access.refl hinv).kept (h.same (fun _ h' => h') (fun _ h' => h') rfl rfl
        ⟨fun hlt => ?_, fun k hk hevicted => ?_⟩)
      · have hsnapshot := hsound.snapshot hlt cached hcached
        rw [← hhit.1, hkey] at hsnapshot
        rw [← hsnapshot.current hlt]
        exact seen_now (h.call call rfl).1
      · exact (hafter k hk hevicted).trans_le (hsound.loadedAt cached hcached)
    · obtain ⟨rfl, rfl⟩ := Prod.mk.inj (Option.some.inj hnext)
      exact kept_drop hinv h rfl rfl rfl rfl trivial

/-- A cached summary is answered unless the file is missing. -/
theorem matched_kept {slot : ℕ} {entry : CacheEntry α} {phase' : Phase α} (hinv : Invariant s)
    (h : Known i s (.matched call slot entry))
    (hnext : next i s (.matched call slot entry) = some (s', phase')) :
    outline.Kept i s s' phase' := by
  simp only [next] at hnext
  split_ifs at hnext with hfile
  · obtain ⟨rfl, rfl⟩ := Prod.mk.inj (Option.some.inj hnext)
    refine kept_return (fun slot => slot.cached) hinv h rfl rfl rfl
      (fun slot' hslot' => ?_) h.read.1 h.read.2
    have hsound := hinv.sound slot slot' hslot'
    exact ⟨hsound.snapshot, hsound.loadedAt, hsound.born⟩
  · obtain ⟨rfl, rfl⟩ := Prod.mk.inj (Option.some.inj hnext)
    exact kept_drop hinv h rfl rfl rfl rfl trivial

/-- A call loads the database. -/
theorem loading_kept {slot epochBefore : ℕ} {phase' : Phase α} (hinv : Invariant s)
    (h : Known i s (.loading call slot epochBefore))
    (hnext : next i s (.loading call slot epochBefore) = some (s', phase')) :
    outline.Kept i s s' phase' := by
  simp only [next] at hnext
  split_ifs at hnext with hfile
  obtain ⟨rfl, rfl⟩ := Prod.mk.inj (Option.some.inj hnext)
  obtain ⟨ticks, hticks, hepoch⟩ := h.read
  refine (Access.refl hinv).kept (h.same (fun _ h' => h') (fun _ h' => h') rfl rfl
    ⟨Seqlock.readSince_of_le hticks hepoch, seen_now (h.call call rfl).1, fun k _ hevicted => ?_,
      fun entry hentry => (hinv.sound slot entry hentry).born⟩)
  exact (List.getElem?_eq_some_iff.1 hevicted).1

/-- A loaded summary is answered, and cached unless a write was going on. -/
theorem loaded_kept {slot epochBefore loadedAt : ℕ} {summary : α} {phase' : Phase α}
    (hinv : Invariant s)
    (h : Known i s (.loaded call slot epochBefore summary loadedAt))
    (hnext : next i s (.loaded call slot epochBefore summary loadedAt) = some (s', phase')) :
    outline.Kept i s s' phase' := by
  obtain ⟨rfl, rfl⟩ := Prod.mk.inj (Option.some.inj hnext)
  obtain ⟨hread, hseen, hafter, hborn⟩ := h.read
  refine kept_return (fun _ => if epochBefore = s.epoch ∧ epochBefore % 2 = 0 then
    some ⟨epochBefore, summary, loadedAt⟩ else none) hinv h rfl rfl rfl (fun slot' hslot' => ?_)
    (fun _ => hseen) hafter
  refine ⟨?_, ?_, (hinv.sound slot slot' hslot').born⟩
  · intro hlt cached hcached
    dsimp only at hcached
    split_ifs at hcached with hpublish
    · obtain rfl := Option.some.inj hcached
      obtain ⟨_, hsame, hkey, -⟩ := h.slot call rfl slot rfl
      obtain rfl := Option.some.inj (hsame.symm.trans hslot')
      obtain ⟨rfl, heven⟩ := hpublish
      rw [epoch_mod_two] at heven
      rw [hkey]
      exact hread.snapshot heven hlt
    · cases hcached
  · intro cached hcached
    dsimp only at hcached
    split_ifs at hcached
    · obtain rfl := Option.some.inj hcached
      exact hborn slot' hslot'
    · cases hcached

/-- The next access of a thread keeps the outline. -/
theorem next_kept {phase phase' : Phase α} (hinv : Invariant s) (h : Known i s phase)
    (hnext : next i s phase = some (s', phase')) : outline.Kept i s s' phase' := by
  cases phase with
  | idle => cases hnext
  | looking call => exact looking_kept hinv h hnext
  | queued call slot => exact queued_kept hinv h hnext
  | checking call slot => exact checking_kept hinv h hnext
  | matched call slot entry => exact matched_kept hinv h hnext
  | missed call slot =>
    obtain ⟨rfl, rfl⟩ := Prod.mk.inj (Option.some.inj hnext)
    exact (Access.refl hinv).kept (h.same (fun _ h' => h') (fun _ h' => h') rfl rfl
      ⟨s.lock.ticks, le_rfl, rfl⟩)
  | loading call slot epochBefore => exact loading_kept hinv h hnext
  | loaded call slot epochBefore summary loadedAt => exact loaded_kept hinv h hnext
  | entering =>
    simp only [next] at hnext
    split_ifs at hnext with hwriter
    obtain ⟨rfl, rfl⟩ := Prod.mk.inj (Option.some.inj hnext)
    refine (access_enter hinv hwriter).kept
      (known_outside rfl rfl (h.not_owner rfl) (iff_of_true rfl rfl) fun odd hodd => ?_)
    cases hodd
    exact hinv.even hwriter
  | locked =>
    obtain ⟨rfl, rfl⟩ := Prod.mk.inj (Option.some.inj hnext)
    refine (access_tick hinv (h.writer.2 rfl)).kept
      (known_outside rfl rfl (h.not_owner rfl) h.writer fun odd hodd => ?_)
    have heven := h.parity 0 rfl
    cases hodd
    simp only [Cache.tick]
    omega
  | writing =>
    obtain ⟨rfl, rfl⟩ := Prod.mk.inj (Option.some.inj hnext)
    refine (access_tick hinv (h.writer.2 rfl)).kept
      (known_outside rfl rfl (h.not_owner rfl) h.writer fun odd hodd => ?_)
    have hone := h.parity 1 rfl
    cases hodd
    simp only [Cache.tick]
    omega
  | leaving =>
    obtain ⟨rfl, rfl⟩ := Prod.mk.inj (Option.some.inj hnext)
    refine (access_leave hinv (h.writer.2 rfl) (h.parity 0 rfl)).kept
      (known_outside rfl rfl (h.not_owner rfl) (iff_of_false ?_ Bool.false_ne_true)
        fun odd hodd => by cases hodd)
    exact (Option.some_ne_none i).symm

/-- Every step of a thread keeps the outline. -/
theorem step_kept {phase phase' : Phase α} {event : Event α} (hinv : Invariant s)
    (h : Known i s phase) (hstep : step i event s phase = some (s', phase')) :
    outline.Kept i s s' phase' := by
  unfold step at hstep
  split at hstep
  · -- a call starts
    obtain ⟨rfl, rfl⟩ := Prod.mk.inj (Option.some.inj hstep)
    refine (Access.refl hinv).kept { h with
      call := fun call hcall => ?_
      slot := fun _ _ _ hn => by cases hn }
    obtain rfl := Option.some.inj hcall
    exact ⟨le_rfl, le_rfl⟩
  · obtain ⟨rfl, rfl⟩ := Prod.mk.inj (Option.some.inj hstep)
    exact (Access.refl hinv).kept (h.same (fun _ h' => h') (fun _ h' => h') rfl rfl trivial)
  · obtain ⟨rfl, rfl⟩ := Prod.mk.inj (Option.some.inj hstep)
    exact (Access.refl hinv).kept (h.same (fun _ h' => h') (fun _ h' => h') rfl rfl trivial)
  · obtain ⟨rfl, rfl⟩ := Prod.mk.inj (Option.some.inj hstep)
    exact (access_evictDb hinv _).kept (h.rely (rely_evictDb _))
  · obtain ⟨rfl, rfl⟩ := Prod.mk.inj (Option.some.inj hstep)
    exact (access_evictDb hinv _).kept (h.rely (rely_evictDb _))
  · obtain ⟨rfl, rfl⟩ := Prod.mk.inj (Option.some.inj hstep)
    exact (access_setFile hinv _ _).kept (h.rely (rely_setFile _ _))
  · -- a write to a database
    obtain ⟨rfl, rfl⟩ := Prod.mk.inj (Option.some.inj hstep)
    exact (access_write hinv (h.writer.2 rfl) (h.parity 1 rfl) _ _).kept
      (known_outside rfl rfl (h.not_owner rfl) h.writer h.parity)
  · -- a load fails
    rename_i creates call slot epochBefore
    obtain ⟨rfl, rfl⟩ := Prod.mk.inj (Option.some.inj hstep)
    have hfile := access_setFile (i := i) hinv call.key.dbPath
      (if s.files call.key.dbPath = .missing ∧ creates then .empty else s.files call.key.dbPath)
    obtain ⟨hset, hidle⟩ := release (fun _ => none) (n := slot) hfile.invariant
      (h.rely (rely_setFile _ _)) rfl rfl fun slot' hslot' =>
        ⟨fun _ _ hcached => (by cases hcached), fun _ hcached => (by cases hcached),
          (hinv.sound slot slot' hslot').born⟩
    exact (hfile.trans hset).kept hidle
  · exact next_kept hinv h hstep
  · cases hstep

theorem invariant_empty (files : String → DbFile) (contents : CacheKey → α) :
    Invariant (empty files contents) where
  even _ := rfl
  sound n slot h := by simp [empty] at h
  map key n h := by simp [empty] at h
  mapped n slot h := by simp [empty] at h
  apart m n old new _ h := by simp [empty] at h
  begun answer h := absurd h List.not_mem_nil
  fresh _ answer h := absurd h List.not_mem_nil
  after answer h := absurd h List.not_mem_nil

/-- The outline holds in every reached state. -/
theorem outline_holds {files : String → DbFile} {contents : CacheKey → α}
    {world : Threads (Cache α) (Phase α)} (h : (system files contents).Reachable world) :
    outline.Holds world := by
  refine Outline.holds_of_reaches (invariant_empty files contents) (fun i => ?_)
    (fun w event s' phase' hw _ hstep => step_kept hw.invariant (hw.known event.1) hstep) h
  exact known_outside rfl rfl (fun n slot hslot => by simp [empty] at hslot)
    (iff_of_false (Option.some_ne_none i).symm Bool.false_ne_true) fun _ hodd => by cases hodd

/-! ## Runs -/

section Sample

def sampleKey : CacheKey := ⟨"wallet.db", .main⟩

/-- A load, a write, and a call that finds the epoch changed. -/
def sampleEvents : List (ℕ × Event ℕ) :=
  [(0, .call sampleKey), (0, .next), (0, .next), (0, .next), (0, .next), (0, .next), (0, .next),
    (1, .enter), (1, .next), (1, .next), (1, .write "wallet.db" fun _ => 7), (1, .next),
    (1, .next), (2, .evictDb "wallet.db"),
    (0, .call sampleKey), (0, .next), (0, .next), (0, .next), (0, .next), (0, .next), (0, .next)]

/-- An eviction between two calls. -/
def sampleEviction : List (ℕ × Event ℕ) :=
  [(0, .call sampleKey), (0, .next), (0, .next), (0, .next), (1, .evictDb "wallet.db"),
    (2, .call sampleKey), (2, .next), (2, .next), (2, .next)]

abbrev sampleSystem : Transition (Threads (Cache ℕ) (Phase ℕ)) (ℕ × Event ℕ) :=
  system (fun _ => .live) fun _ => 3

end Sample

/-! ## Results -/

variable {files : String → DbFile} {contents : CacheKey → α} {world : Threads (Cache α) (Phase α)}

/-- As long as the epoch has not wrapped, an answer is what was last written to its database at some
moment of its call. Removing the file is no write: a removed file is noticed only while it is
missing. -/
theorem answers_fresh (h : (system files contents).Reachable world)
    (hwraps : world.shared.lock.ticks < u64Size) (answer : Answer α)
    (hanswer : answer ∈ world.shared.answers) :
    ∃ writes contents, answer.call.since ≤ writes ∧ writes ≤ answer.writes ∧
      world.shared.version writes = some contents ∧ contents answer.call.key = answer.summary :=
  (outline_holds h).invariant.fresh hwraps answer hanswer

theorem answers_fresh_sample : ∃ world, sampleSystem.Reachable world ∧
    ∃ answer ∈ world.shared.answers, answer.summary = 7 ∧ ∃ writes contents,
      answer.call.since ≤ writes ∧ writes ≤ answer.writes ∧
        world.shared.version writes = some contents ∧
        contents answer.call.key = answer.summary := by
  obtain ⟨world, hreachable, hp⟩ := sampleSystem.exists_reachable sampleEvents
    (fun world => world.shared.lock.ticks < u64Size ∧
      ∃ answer ∈ world.shared.answers, answer.summary = 7) (by decide)
  obtain ⟨hwraps, answer, hanswer, hsummary⟩ := of_decide_eq_true hp
  exact ⟨world, hreachable, answer, hanswer, hsummary,
    answers_fresh hreachable hwraps answer hanswer⟩

/-- No answer was loaded before an eviction of its database that preceded the call. -/
theorem answers_after_evictions (h : (system files contents).Reachable world) (answer : Answer α)
    (hanswer : answer ∈ world.shared.answers) {eviction : ℕ}
    (hbefore : eviction < answer.call.begun)
    (hevicted : world.shared.evictions[eviction]? = some answer.call.key.dbPath) :
    eviction < answer.loadedAt :=
  (outline_holds h).invariant.after answer hanswer eviction hbefore hevicted

theorem answers_after_evictions_sample : ∃ world, sampleSystem.Reachable world ∧
    ∃ answer ∈ world.shared.answers, 0 < answer.loadedAt := by
  obtain ⟨world, hreachable, hp⟩ := sampleSystem.exists_reachable sampleEvents
    (fun world => ∃ answer ∈ world.shared.answers,
      0 < answer.call.begun ∧
        world.shared.evictions[0]? = some answer.call.key.dbPath) (by decide)
  obtain ⟨answer, hanswer, hbefore, hevicted⟩ := of_decide_eq_true hp
  exact ⟨world, hreachable, answer, hanswer,
    answers_after_evictions hreachable answer hanswer hbefore hevicted⟩

/-- Two calls that are at work on one key at the same time have an eviction of its database after
one of them began. -/
theorem loads_shared (h : (system files contents).Reachable world) {i j : ℕ} (hne : i ≠ j)
    {call call' : Call} (hcall : (world.thread i).call = some call)
    (hcall' : (world.thread j).call = some call') (hkey : call.key = call'.key)
    (hholds : (world.thread i).holds.isSome) (hholds' : (world.thread j).holds.isSome) :
    ∃ eviction, min call.begun call'.begun ≤ eviction ∧
      world.shared.evictions[eviction]? = some call.key.dbPath := by
  obtain ⟨hinv, hknown⟩ := outline_holds h
  obtain ⟨m, hm⟩ := Option.isSome_iff_exists.1 hholds
  obtain ⟨n, hn⟩ := Option.isSome_iff_exists.1 hholds'
  obtain ⟨slot, hslot, hslotKey, hafter⟩ :=
    (hknown i).slot call hcall m (Phase.slot_of_holds hm)
  obtain ⟨slot', hslot', hslotKey', hafter'⟩ :=
    (hknown j).slot call' hcall' n (Phase.slot_of_holds hn)
  have howner := ((hknown i).mutex m slot hslot).2 hm
  have howner' := ((hknown j).mutex n slot' hslot').2 hn
  have hsame : slot.key = slot'.key := by rw [hslotKey, hslotKey', hkey]
  obtain hlt | rfl | hgt := Nat.lt_trichotomy m n
  · obtain ⟨k, hborn, -, hk⟩ := hinv.apart m n slot slot' hlt hslot hslot' hsame
    rw [hslotKey] at hk
    refine ⟨k, (min_le_left _ _).trans (Nat.le_of_not_lt fun hbegun => ?_), hk⟩
    have := hafter k hbegun hk
    omega
  · -- one mutex has one owner
    obtain rfl := Option.some.inj (hslot.symm.trans hslot')
    exact absurd (Option.some.inj (howner.symm.trans howner')) hne
  · obtain ⟨k, hborn, -, hk⟩ := hinv.apart n m slot' slot hgt hslot' hslot hsame.symm
    rw [hslotKey'] at hk
    refine ⟨k, (min_le_right _ _).trans (Nat.le_of_not_lt fun hbegun => ?_), hkey ▸ hk⟩
    have := hafter' k hbegun hk
    omega

theorem loads_shared_sample : ∃ world, sampleSystem.Reachable world ∧
    ∃ eviction : ℕ, world.shared.evictions[eviction]? = some sampleKey.dbPath := by
  obtain ⟨world, hreachable, hp⟩ := sampleSystem.exists_reachable sampleEviction
    (fun world => (world.thread 0).call = some ⟨sampleKey, 0, 0⟩ ∧
      (world.thread 2).call = some ⟨sampleKey, 0, 1⟩ ∧ (world.thread 0).holds.isSome ∧
      (world.thread 2).holds.isSome) (by decide)
  obtain ⟨hcall, hcall', hholds, hholds'⟩ := of_decide_eq_true hp
  obtain ⟨eviction, -, hevicted⟩ := loads_shared hreachable (by decide : 0 ≠ 2) hcall hcall' rfl
    hholds hholds'
  exact ⟨world, hreachable, eviction, hevicted⟩

end VizorWallet.Summary
