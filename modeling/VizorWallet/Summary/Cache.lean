import VizorWallet.Library.Seqlock
import VizorWallet.Library.Threads
import VizorWallet.Machine
import VizorWallet.Migration.Store.Tables

/-!
# The wallet summary cache

The process-wide cache of wallet summaries, of `wallet/wallet_summary_cache.rs`, and the write lock
of wallet databases, of `wallet/db.rs`. Any number of threads call the cache and write databases;
each step is one access to what they share.

The state also has the history that no code reads: earlier contents, evictions and answers.

## Main definitions

* `CacheEntry`, `EntrySlot`, `Cache` — what the threads share.
* `Phase` — where a thread stands in `get_or_load_with_epoch` or `with_wallet_db_write_lock`.
* `step` — the next access of a thread.
-/

namespace VizorWallet.Summary

open Migration.Store (WalletNetwork)

structure CacheKey where
  dbPath : String
  network : WalletNetwork
  deriving DecidableEq

/-- A cached summary; `loadedAt` is the number of evictions before its load. -/
structure CacheEntry (α : Type) where
  epoch : ℕ
  summary : α
  loadedAt : ℕ
  deriving DecidableEq

/-- A slot behind its mutex, with the key and the number of evictions that it was made with. -/
structure EntrySlot (α : Type) where
  cached : Option (CacheEntry α)
  owner : Option ℕ
  key : CacheKey
  born : ℕ
  deriving DecidableEq

/-- A call, with the number of writes and of evictions before it. -/
structure Call where
  key : CacheKey
  since : ℕ
  begun : ℕ
  deriving DecidableEq

/-- A call that returned a summary, with the number of writes before it returned. -/
structure Answer (α : Type) where
  call : Call
  summary : α
  writes : ℕ
  loadedAt : ℕ
  deriving DecidableEq

/-- A database file; a failed load can leave an empty one. -/
inductive DbFile
  | missing
  | empty
  | live
  deriving DecidableEq

/-- What the threads share. The sequence lock has what a load of each key would give. -/
structure Cache (α : Type) where
  files : String → DbFile
  lock : Seqlock (CacheKey → α)
  writer : Option ℕ
  map : List (CacheKey × ℕ)
  slots : List (EntrySlot α)
  earlier : List (CacheKey → α)
  evictions : List String
  answers : List (Answer α)

/-- Where a thread stands. -/
inductive Phase (α : Type)
  | idle
  | looking (call : Call)
  | queued (call : Call) (slot : ℕ)
  | checking (call : Call) (slot : ℕ)
  | matched (call : Call) (slot : ℕ) (entry : CacheEntry α)
  | missed (call : Call) (slot : ℕ)
  | loading (call : Call) (slot : ℕ) (epochBefore : ℕ)
  | loaded (call : Call) (slot : ℕ) (epochBefore : ℕ) (summary : α) (loadedAt : ℕ)
  | entering
  | locked
  | writing
  | leaving

/-- What a thread does next. -/
inductive Event (α : Type)
  | call (key : CacheKey)
  | enter
  | giveUp
  | evictDb (dbPath : String)
  | removeFile (dbPath : String)
  | write (dbPath : String) (contents : WalletNetwork → α)
  | loadFails (creates : Bool)
  | next

variable {α : Type}

namespace Cache

variable (s : Cache α)

/-- `wallet_db_write_epoch` -/
def epoch : ℕ := s.lock.epoch u64Size

/-- What was written after a number of writes, whether or not the files are still there. -/
def version (writes : ℕ) : Option (CacheKey → α) := (s.earlier ++ [s.lock.value])[writes]?

def setSlot (slot : ℕ) (f : EntrySlot α → EntrySlot α) : Cache α :=
  { s with slots := s.slots.modify slot f }

/-- The mutex of a slot is released with what is cached in it. -/
def publish (slot : ℕ) (cached : Option (CacheEntry α)) : Cache α :=
  s.setSlot slot fun entry => { entry with cached := cached, owner := none }

def answer (call : Call) (summary : α) (loadedAt : ℕ) : Cache α :=
  { s with answers := s.answers ++ [⟨call, summary, s.earlier.length, loadedAt⟩] }

/-- `slot_for` -/
def slotFor (key : CacheKey) : Cache α × ℕ :=
  match s.map.lookup key with
  | some slot => (s, slot)
  | none =>
    ({ s with
      map := (key, s.slots.length) :: s.map
      slots := s.slots ++ [⟨none, none, key, s.evictions.length⟩] }, s.slots.length)

/-- `evict_db` -/
def evictDb (dbPath : String) : Cache α :=
  { s with
    map := s.map.filter (·.1.dbPath ≠ dbPath)
    evictions := s.evictions ++ [dbPath] }

def tick : Cache α := { s with lock := { s.lock with ticks := s.lock.ticks + 1 } }

def setFile (dbPath : String) (file : DbFile) : Cache α :=
  { s with files := Function.update s.files dbPath file }

/-- A write to a database, in the closure of a locked write. -/
def write (dbPath : String) (contents : WalletNetwork → α) : Cache α :=
  { s.setFile dbPath .live with
    lock := { s.lock with value := fun key =>
      if key.dbPath = dbPath then contents key.network else s.lock.value key }
    earlier := s.earlier ++ [s.lock.value] }

end Cache

/-- The next access of a thread that stands in a call or in a locked write. -/
def next (i : ℕ) (s : Cache α) : Phase α → Option (Cache α × Phase α)
  | .idle => none
  | .looking call =>
    let (s', slot) := s.slotFor call.key
    some (s', .queued call slot)
  | .queued call slot => do
    let entry ← s.slots[slot]?
    if entry.owner = none then
      some (s.setSlot slot ({ · with owner := some i }), .checking call slot)
    else none
  | .checking call slot => do
    let entry ← s.slots[slot]?
    match entry.cached with
    | some cached =>
      if s.epoch = cached.epoch ∧ s.epoch % 2 = 0 then some (s, .matched call slot cached)
      else some (s.setSlot slot ({ · with cached := none }), .missed call slot)
    | none => some (s, .missed call slot)
  | .matched call slot cached =>
    if s.files call.key.dbPath ≠ .missing then
      some ((s.setSlot slot ({ · with owner := none })).answer call cached.summary cached.loadedAt,
        .idle)
    else some (s.setSlot slot ({ · with cached := none }), .missed call slot)
  | .missed call slot => some (s, .loading call slot s.epoch)
  | .loading call slot epochBefore =>
    if s.files call.key.dbPath = .live then
      some (s, .loaded call slot epochBefore (s.lock.value call.key) s.evictions.length)
    else none
  | .loaded call slot epochBefore summary loadedAt =>
    let cached :=
      if epochBefore = s.epoch ∧ epochBefore % 2 = 0 then some ⟨epochBefore, summary, loadedAt⟩
      else none
    some ((s.publish slot cached).answer call summary loadedAt, .idle)
  | .entering => if s.writer = none then some ({ s with writer := some i }, .locked) else none
  | .locked => some (s.tick, .writing)
  | .writing => some (s.tick, .leaving)
  | .leaving => some ({ s with writer := none }, .idle)

/-- A step of a thread. The closure of a locked write also evicts, and files are removed at any
time. -/
def step (i : ℕ) (event : Event α) (s : Cache α) (phase : Phase α) : Option (Cache α × Phase α) :=
  match event, phase with
  | .call key, .idle => some (s, .looking ⟨key, s.earlier.length, s.evictions.length⟩)
  | .enter, .idle => some (s, .entering)
  | .giveUp, .entering => some (s, .idle)
  | .evictDb dbPath, .idle => some (s.evictDb dbPath, .idle)
  | .evictDb dbPath, .writing => some (s.evictDb dbPath, .writing)
  | .removeFile dbPath, .idle => some (s.setFile dbPath .missing, .idle)
  | .write dbPath contents, .writing => some (s.write dbPath contents, .writing)
  | .loadFails creates, .loading call slot _ =>
    let file := s.files call.key.dbPath
    some ((s.setFile call.key.dbPath
      (if file = .missing ∧ creates then .empty else file)).publish slot none, .idle)
  | .next, phase => next i s phase
  | _, _ => none

def empty (files : String → DbFile) (contents : CacheKey → α) : Cache α :=
  ⟨files, ⟨0, contents⟩, none, [], [], [], [], []⟩

/-- The calls, writes and evictions of a process. -/
def system (files : String → DbFile) (contents : CacheKey → α) :
    Transition (Threads (Cache α) (Phase α)) (ℕ × Event α) :=
  Threads.system (empty files contents) .idle step

end VizorWallet.Summary
