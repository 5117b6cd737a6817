import VizorWallet.Discovery.Pass
import VizorWallet.Library.GapWalk

/-!
# What a checkpoint stands for

A checkpoint is sound when every index below its next one was fetched to the end and stored, and
when the chain had the recorded block before the first of these fetches. Evidence only grows while
a pass runs.

## Main definitions

* `Fetched`, `Used` — an index was fetched from the chain of a time, and had a history there.
* `Scanning` — the evidence of a scan that has come to some progress.
* `Checkpoint.Sound`, `World.Sound`
* `Published` — what readiness promises of a scope.

## Main results

* `Scanning.advance` — a scan advances with a fetch.
* `Checkpoint.Sound.published` — a sound, complete checkpoint keeps the promise.
* `World.Sound.step` — what happens between passes keeps the checkpoints sound.
-/

namespace VizorWallet.Discovery

/-! ## Fetches -/

def World.Stored (world : World) (transaction : Transaction) : Prop :=
  ∃ mined, (transaction, mined) ∈ world.transactions

section Fetches

variable (server : Server) (packages : Packages)

/-- The history of an index, on the chain of a time, was read to its end and stored. -/
def Fetched (world : World) (key : TransparentKey) (scope : KeyScope) (tip time index : ℕ) : Prop :=
  ∃ address, packages.addressForQuery (packages.receiver key scope index) = .ok address ∧
    ⟨address, tip, server.history time address tip⟩ ∈ world.drained ∧
    ∀ raw ∈ server.history time address tip, (0 < raw.height ∧ raw.height ≤ tip) ∧
      ∃ transaction, packages.read raw = .ok transaction ∧ world.Stored transaction

/-- The index has a history on the chain of a time. -/
def Used (key : TransparentKey) (scope : KeyScope) (tip time index : ℕ) : Prop :=
  ∃ address, packages.addressForQuery (packages.receiver key scope index) = .ok address ∧
    server.history time address tip ≠ []

/-- Transactions in the history of an account's address have to do with the account. -/
def Traces : Prop :=
  ∀ (account : Account) (key : TransparentKey) (scope : KeyScope) (index : ℕ) (address : String)
    (time tip : ℕ), account.transparentKey = some key →
    packages.addressForQuery (packages.receiver key scope index) = .ok address →
    ∀ raw ∈ server.history time address tip, ∀ transaction, packages.read raw = .ok transaction →
      packages.touches transaction account = true

end Fetches

/-- What a pass adds while it leaves the checkpoints alone. -/
structure World.Quiet (world world' : World) : Prop where
  accounts : world'.accounts = world.accounts
  table : world'.table = world.table
  now_le : world.now ≤ world'.now
  drained : ∀ history ∈ world.drained, history ∈ world'.drained
  stored : ∀ transaction, world.Stored transaction → world'.Stored transaction

/-- The evidence of a scan: a moment of fetching for each index. From `since` on only under the
condition `steady`. -/
structure Scanning (server : Server) (packages : Packages) (steady : Prop) (world : World)
    (key : TransparentKey) (scope : KeyScope) (tip : ℕ) (progress : Progress) (since : ℕ)
    (moment : ℕ → ℕ) : Prop where
  since_le : since ≤ world.now
  moment_le : ∀ index < progress.nextIndex, moment index ≤ world.now
  fetched : ∀ index < progress.nextIndex,
    Fetched server packages world key scope tip (moment index) index
  walk : GapWalk (gapLimit scope)
    (fun index => Used server packages key scope tip (moment index) index)
    progress.nextIndex progress.unused
  since_le_moment : steady → ∀ index < progress.nextIndex, since ≤ moment index

/-- A checkpoint is sound for an account: it has the evidence, and the block it names was there
before; when it is complete, the block was there at every fetch. -/
def Checkpoint.Sound (server : Server) (packages : Packages) (steady : Prop) (world : World)
    (account : Account) (scope : KeyScope) (checkpoint : Checkpoint) : Prop :=
  ∃ key, account.transparentKey = some key ∧ ∃ since moment,
    Scanning server packages steady world key scope checkpoint.tipHeight checkpoint.progress since
      moment ∧
    server.blockHash since checkpoint.tipHeight = checkpoint.tipHash ∧
    (checkpoint.complete ≠ 0 → checkpoint.progress.unused = gapLimit scope ∧
      (steady → ∀ index < checkpoint.progress.nextIndex,
        server.blockHash (moment index) checkpoint.tipHeight = checkpoint.tipHash))

structure World.Sound (server : Server) (packages : Packages) (steady : Prop) (world : World) :
    Prop where
  uuids : (world.accounts.map Account.uuid).Nodup
  keys : ((world.table.getD []).map Prod.fst).Nodup
  checkpoints : ∀ row ∈ world.table.getD [], ∃ account ∈ world.accounts,
    account.uuid = row.1.account ∧
      row.2.Sound server packages steady world account row.1.scope

/-- What readiness promises of a scope: on the chain with the recorded block every index below the
next one was fetched to the end and stored, the last indices up to the gap limit have no history,
and no earlier window of that length has none throughout. -/
def Published (server : Server) (packages : Packages) (world : World) (account : Account)
    (scope : KeyScope) (checkpoint : Checkpoint) : Prop :=
  ∃ key, account.transparentKey = some key ∧ ∃ time ≤ world.now,
    server.blockHash time checkpoint.tipHeight = checkpoint.tipHash ∧
    (∀ index < checkpoint.progress.nextIndex,
      Fetched server packages world key scope checkpoint.tipHeight time index) ∧
    gapLimit scope ≤ checkpoint.progress.nextIndex ∧
    (∀ index < checkpoint.progress.nextIndex,
      checkpoint.progress.nextIndex ≤ index + gapLimit scope →
      ¬ Used server packages key scope checkpoint.tipHeight time index) ∧
    ∀ start, start + gapLimit scope < checkpoint.progress.nextIndex →
      ∃ index, start ≤ index ∧ index < start + gapLimit scope ∧
        Used server packages key scope checkpoint.tipHeight time index

variable {server : Server} {packages : Packages} {steady : Prop} {world world' world'' : World}
  {account : Account} {id : AccountUuid} {key : TransparentKey} {scope : KeyScope}
  {tip since time index : ℕ} {moment : ℕ → ℕ} {progress : Progress} {checkpoint : Checkpoint}

namespace World.Quiet

@[refl] theorem refl (world : World) : world.Quiet world :=
  ⟨rfl, rfl, le_rfl, fun _ => id, fun _ => id⟩

theorem trans (h : world.Quiet world') (h' : world'.Quiet world'') : world.Quiet world'' where
  accounts := h'.accounts.trans h.accounts
  table := h'.table.trans h.table
  now_le := h.now_le.trans h'.now_le
  drained history hmem := h'.drained history (h.drained history hmem)
  stored transaction hstored := h'.stored transaction (h.stored transaction hstored)

theorem load (h : world.Quiet world') : world'.load = world.load := by
  unfold World.load
  rw [h.table]

end World.Quiet

theorem Fetched.mono (h : Fetched server packages world key scope tip time index)
    (hdrained : ∀ history ∈ world.drained, history ∈ world'.drained)
    (hstored : ∀ transaction, world.Stored transaction → world'.Stored transaction) :
    Fetched server packages world' key scope tip time index := by
  obtain ⟨address, haddress, hmem, hall⟩ := h
  refine ⟨address, haddress, hdrained _ hmem, fun raw hraw => ?_⟩
  obtain ⟨hheight, transaction, hread, htransaction⟩ := hall raw hraw
  exact ⟨hheight, transaction, hread, hstored transaction htransaction⟩

/-- Two times with the same block have the same histories up to it. -/
theorem Server.Reorganizes.history_eq (h : server.Reorganizes) {first last height : ℕ}
    (hle : first ≤ last) (hsame : server.blockHash first height = server.blockHash last height)
    (address : String) :
    server.history first address height = server.history last address height :=
  congrFun (Reorganizes.between h le_rfl hle hsame).2 address

theorem Fetched.congr (h : Fetched server packages world key scope tip time index) {time' : ℕ}
    (heq : ∀ address, server.history time' address tip = server.history time address tip) :
    Fetched server packages world key scope tip time' index := by
  obtain ⟨address, haddress, hfetched⟩ := h
  exact ⟨address, haddress, by rwa [heq]⟩

theorem used_congr {time' : ℕ}
    (heq : ∀ address, server.history time' address tip = server.history time address tip) :
    Used server packages key scope tip time' index ↔
      Used server packages key scope tip time index := by
  simp only [Used, heq]

/-! ## Scans -/

namespace Scanning

theorem start (hsince : since ≤ world.now) :
    Scanning server packages steady world key scope tip default since moment where
  since_le := hsince
  moment_le _ h := absurd h (Nat.not_lt_zero _)
  fetched _ h := absurd h (Nat.not_lt_zero _)
  walk := .zero
  since_le_moment _ _ h := absurd h (Nat.not_lt_zero _)

theorem mono (h : Scanning server packages steady world key scope tip progress since moment)
    (hnow : world.now ≤ world'.now)
    (hfetched : ∀ time index, Fetched server packages world key scope tip time index →
      Fetched server packages world' key scope tip time index) :
    Scanning server packages steady world' key scope tip progress since moment where
  since_le := h.since_le.trans hnow
  moment_le index hindex := (h.moment_le index hindex).trans hnow
  fetched index hindex := hfetched _ index (h.fetched index hindex)
  walk := h.walk
  since_le_moment := h.since_le_moment

theorem quiet (h : Scanning server packages steady world key scope tip progress since moment)
    (hquiet : world.Quiet world') :
    Scanning server packages steady world' key scope tip progress since moment :=
  h.mono hquiet.now_le fun _ _ hfetched => hfetched.mono hquiet.drained hquiet.stored

/-- Without a steady chain any time may serve as the first. -/
theorem restart (h : Scanning server packages steady world key scope tip progress since moment)
    {since' : ℕ} (hsince : since' ≤ world.now) (hfree : steady → progress.nextIndex = 0) :
    Scanning server packages steady world key scope tip progress since' moment where
  since_le := hsince
  moment_le := h.moment_le
  fetched := h.fetched
  walk := h.walk
  since_le_moment hsteady _ hindex :=
    absurd (hfree hsteady ▸ hindex) (Nat.not_lt_zero _)

/-- A scan advances with a fetch of its next index. -/
theorem advance (h : Scanning server packages steady world key scope tip progress since moment)
    (hopen : progress.unused < gapLimit scope) (hsince : since ≤ time) (htime : time ≤ world.now)
    (hfetched : Fetched server packages world key scope tip time progress.nextIndex) {used : Bool}
    (hused : used = true ↔ Used server packages key scope tip time progress.nextIndex)
    {progress' : Progress} (hadvance : progress.advance used = .ok progress') :
    ∃ moment', Scanning server packages steady world key scope tip progress' since moment' := by
  unfold Progress.advance at hadvance
  split at hadvance
  swap
  · cases hadvance
  obtain rfl := Except.ok.inj hadvance
  let moment' := Function.update moment progress.nextIndex time
  have hold : ∀ index < progress.nextIndex, moment' index = moment index :=
    fun index hlt => Function.update_of_ne hlt.ne time moment
  have hnew : moment' progress.nextIndex = time := Function.update_self _ time moment
  have hcases : ∀ (P : ℕ → ℕ → Prop), (∀ index < progress.nextIndex, P (moment index) index) →
      P time progress.nextIndex → ∀ index < progress.nextIndex + 1, P (moment' index) index := by
    rintro P hbelow hlast index hindex
    obtain hlt | rfl := Nat.lt_succ_iff_lt_or_eq.1 hindex
    · rw [hold index hlt]
      exact hbelow index hlt
    · rw [hnew]
      exact hlast
  have hwalk : GapWalk (gapLimit scope)
      (fun index => Used server packages key scope tip (moment' index) index)
      progress.nextIndex progress.unused :=
    h.walk.congr fun index hlt => by rw [hold index hlt]
  refine ⟨moment', h.since_le, ?_, ?_, ?_, fun hsteady => ?_⟩
  · exact hcases (fun at_ _ => at_ ≤ world.now) h.moment_le htime
  · exact hcases (fun at_ index => Fetched server packages world key scope tip at_ index) h.fetched
      hfetched
  · rw [← hnew] at hused
    cases used with
    | true => exact hwalk.advance_used hopen (hused.1 rfl)
    | false => exact hwalk.advance_unused hopen fun h => Bool.noConfusion (hused.2 h)
  · exact hcases (fun at_ _ => since ≤ at_) (h.since_le_moment hsteady) hsince

end Scanning

/-! ## Sound checkpoints -/

theorem Checkpoint.Sound.mono (h : checkpoint.Sound server packages steady world account scope)
    (hnow : world.now ≤ world'.now)
    (hfetched : ∀ key tip time index, account.transparentKey = some key →
      Fetched server packages world key scope tip time index →
      Fetched server packages world' key scope tip time index) :
    checkpoint.Sound server packages steady world' account scope := by
  obtain ⟨key, hkey, since, moment, hscanning, hrest⟩ := h
  exact ⟨key, hkey, since, moment, hscanning.mono hnow fun time index =>
    hfetched key _ time index hkey, hrest⟩

/-- A sound, complete checkpoint keeps the promise of readiness. -/
theorem Checkpoint.Sound.published (hserver : server.Reorganizes)
    (h : checkpoint.Sound server packages True world account scope)
    (hcomplete : checkpoint.complete ≠ 0) :
    Published server packages world account scope checkpoint := by
  obtain ⟨key, hkey, since, moment, hscanning, hhash, hfinished⟩ := h
  obtain ⟨hunused, hhashes⟩ := hfinished hcomplete
  have hhistory : ∀ index < checkpoint.progress.nextIndex, ∀ address,
      server.history since address checkpoint.tipHeight =
        server.history (moment index) address checkpoint.tipHeight := by
    intro index hindex
    refine hserver.history_eq (hscanning.since_le_moment trivial index hindex) ?_
    rw [hhash, hhashes trivial index hindex]
  have hwalk : GapWalk (gapLimit scope)
      (fun index => Used server packages key scope checkpoint.tipHeight since index)
      checkpoint.progress.nextIndex checkpoint.progress.unused :=
    hscanning.walk.congr fun index hindex => used_congr (hhistory index hindex)
  rw [hunused] at hwalk
  refine ⟨key, hkey, since, hscanning.since_le, hhash, fun index hindex => ?_, hwalk.unused_le_next,
    fun index hlt hle => hwalk.tail_unused index hle hlt, hwalk.no_earlier_gap⟩
  exact (hscanning.fetched index hindex).congr (hhistory index hindex)

namespace World.Sound

theorem quiet (h : world.Sound server packages steady) (hquiet : world.Quiet world') :
    world'.Sound server packages steady where
  uuids := hquiet.accounts ▸ h.uuids
  keys := hquiet.table ▸ h.keys
  checkpoints row hrow := by
    rw [hquiet.table] at hrow
    obtain ⟨account, haccount, huuid, hsound⟩ := h.checkpoints row hrow
    refine ⟨account, hquiet.accounts ▸ haccount, huuid, hsound.mono hquiet.now_le ?_⟩
    exact fun key tip time index _ hfetched => hfetched.mono hquiet.drained hquiet.stored

/-- Dropping checkpoints, or publishing them, needs the evidence only that was there. -/
theorem of_rows (h : world.Sound server packages steady)
    (huuids : (world'.accounts.map Account.uuid).Nodup)
    (hkeys : ((world'.table.getD []).map Prod.fst).Nodup)
    (hrows : ∀ row ∈ world'.table.getD [], ∃ row' ∈ world.table.getD [], row.1 = row'.1 ∧
      ∀ account ∈ world.accounts, account.uuid = row.1.account →
        row'.2.Sound server packages steady world account row.1.scope →
        account ∈ world'.accounts ∧ row.2.Sound server packages steady world' account row.1.2) :
    world'.Sound server packages steady where
  uuids := huuids
  keys := hkeys
  checkpoints row hrow := by
    obtain ⟨row', hrow', hkey, hkeep⟩ := hrows row hrow
    obtain ⟨account, haccount, huuid, hsound⟩ := h.checkpoints row' hrow'
    rw [← hkey] at huuid hsound
    obtain ⟨hmem, hsound'⟩ := hkeep account haccount huuid hsound
    exact ⟨account, hmem, huuid, hsound'⟩

/-- A checkpoint with evidence may be saved. -/
theorem save (h : world.Sound server packages steady) (haccount : account ∈ world.accounts)
    (hcheckpoint : checkpoint.Sound server packages steady world account scope) :
    (world.save account.uuid scope checkpoint).Sound server packages steady := by
  have hany : world.accounts.any (·.uuid = account.uuid) = true :=
    List.any_eq_true.2 ⟨account, haccount, decide_eq_true rfl⟩
  rw [World.save, if_pos hany]
  cases htable : world.table with
  | none => exact ⟨h.uuids, List.nodup_nil, nofun⟩
  | some rows =>
    have hrows : ∀ row ∈ rows, row ∈ world.table.getD [] := by simp [htable]
    refine ⟨h.uuids, ?_, fun row hrow => ?_⟩
    · have hkeys := h.keys
      rw [htable] at hkeys
      exact nodup_insertKey hkeys
    · obtain rfl | ⟨hold, -⟩ := mem_insertKey hrow
      · exact ⟨account, haccount, rfl, hcheckpoint.mono le_rfl fun _ _ _ _ _ => id⟩
      · obtain ⟨owner, howner, huuid, hsound⟩ := h.checkpoints row (hrows row hold)
        exact ⟨owner, howner, huuid, hsound.mono le_rfl fun _ _ _ _ _ => id⟩

theorem publish (h : world.Sound server packages steady) (id : AccountUuid) :
    (world.publish id).Sound server packages steady := by
  have hkeys : ((world.publish id).table.getD []).map Prod.fst =
      (world.table.getD []).map Prod.fst := by
    unfold World.publish
    cases world.table with
    | none => rfl
    | some rows =>
      simp only [Option.map_some, Option.getD_some, List.map_map]
      refine List.map_congr_left fun row _ => ?_
      by_cases hrow : row.1.account = id ∧ row.2.complete = 1 <;> simp [hrow]
  refine h.of_rows h.uuids (hkeys ▸ h.keys) fun row hrow => ?_
  unfold World.publish at hrow
  cases htable : world.table with
  | none => simp [htable] at hrow
  | some rows =>
    simp only [htable, Option.map_some, Option.getD_some, List.mem_map] at hrow
    obtain ⟨row', hrow', rfl⟩ := hrow
    refine ⟨row', hrow', ?_⟩
    by_cases hcomplete : row'.1.account = id ∧ row'.2.complete = 1
    · rw [if_pos hcomplete]
      refine ⟨rfl, fun account haccount _ hsound => ⟨haccount, ?_⟩⟩
      obtain ⟨key, hkey, since, moment, hscanning, hhash, hfinished⟩ := hsound
      have hone : row'.2.complete ≠ 0 := by omega
      exact ⟨key, hkey, since, moment, hscanning.mono le_rfl fun _ _ hfetched => hfetched, hhash,
        fun _ => hfinished hone⟩
    · rw [if_neg hcomplete]
      exact ⟨rfl, fun account haccount _ hsound =>
        ⟨haccount, hsound.mono le_rfl fun _ _ _ _ _ hfetched => hfetched⟩⟩

theorem ensureTable (h : world.Sound server packages steady) :
    world.ensureTable.Sound server packages steady := by
  refine h.of_rows h.uuids ?_ fun row hrow => ⟨row, hrow, rfl, fun account haccount _ hsound =>
    ⟨haccount, hsound.mono le_rfl fun _ _ _ _ _ => id⟩⟩
  exact h.keys

/-! ## Between passes -/

theorem invalidateForRewind (h : world.Sound server packages steady) (height : ℕ) :
    (world.invalidateForRewind height).Sound server packages steady := by
  have hsublist : ((world.invalidateForRewind height).table.getD []).Sublist
      (world.table.getD []) := by
    unfold World.invalidateForRewind
    cases world.table with
    | none => exact .slnil
    | some rows => exact List.filter_sublist
  refine h.of_rows h.uuids (h.keys.sublist (hsublist.map _)) fun row hrow =>
    ⟨row, hsublist.subset hrow, rfl, fun account haccount _ hsound =>
      ⟨haccount, hsound.mono le_rfl fun _ _ _ _ _ => id⟩⟩

theorem truncateToHeight (h : world.Sound server packages steady) (reached : ℕ) :
    (world.truncateToHeight reached).Sound server packages steady := by
  have hstored : ∀ transaction, world.Stored transaction →
      (world.truncateToHeight reached).Stored transaction := by
    rintro transaction ⟨mined, hmem⟩
    exact ⟨_, List.mem_map_of_mem hmem⟩
  refine h.of_rows h.uuids h.keys fun row hrow => ⟨row, hrow, rfl, fun account haccount _ hsound =>
    ⟨haccount, hsound.mono le_rfl fun _ _ _ _ _ hfetched => ?_⟩⟩
  exact hfetched.mono (fun _ => id) hstored

theorem importAccount (h : world.Sound server packages steady)
    (hnew : ¬ world.accounts.any (·.uuid = account.uuid)) :
    World.Sound server packages steady
      { world with accounts := world.accounts ++ [account] } := by
  refine h.of_rows ?_ h.keys fun row hrow => ⟨row, hrow, rfl, fun owner howner _ hsound =>
    ⟨List.mem_append_left _ howner, hsound.mono le_rfl fun _ _ _ _ _ => id⟩⟩
  change ((world.accounts ++ [account]).map Account.uuid).Nodup
  rw [List.map_append, List.nodup_append']
  refine ⟨h.uuids, List.nodup_singleton _, fun uuid hold hone => hnew ?_⟩
  obtain ⟨other, hother, rfl⟩ := List.mem_map.1 hold
  exact List.any_eq_true.2 ⟨other, hother, decide_eq_true (List.mem_singleton.1 hone)⟩

/-- What is left of the histories after an account is deleted is all of the others. -/
theorem deleteAccount (h : world.Sound server packages steady) (htraces : Traces server packages)
    (id : AccountUuid) : (world.deleteAccount packages id).Sound server packages steady := by
  have hsublist : ((world.deleteAccount packages id).table.getD []).Sublist
      (world.table.getD []) := by
    unfold World.deleteAccount
    cases world.table with
    | none => exact .slnil
    | some rows => exact List.filter_sublist
  have hother : ∀ row ∈ (world.deleteAccount packages id).table.getD [], row.1.account ≠ id := by
    unfold World.deleteAccount
    cases world.table with
    | none => exact nofun
    | some rows => exact fun row hrow => of_decide_eq_true (List.mem_filter.1 hrow).2
  refine h.of_rows (h.uuids.sublist (List.filter_sublist.map _)) (h.keys.sublist (hsublist.map _))
    fun row hrow => ⟨row, hsublist.subset hrow, rfl, fun account haccount huuid hsound => ?_⟩
  have hne : account.uuid ≠ id := huuid ▸ hother row hrow
  refine ⟨List.mem_filter.2 ⟨haccount, decide_eq_true hne⟩, hsound.mono le_rfl ?_⟩
  rintro key tip time index hkey ⟨address, haddress, hmem, hall⟩
  refine ⟨address, haddress, hmem, fun raw hraw => ?_⟩
  obtain ⟨hheight, transaction, hread, mined, hstored⟩ := hall raw hraw
  refine ⟨hheight, transaction, hread, mined, List.mem_filter.2 ⟨hstored, decide_eq_true ?_⟩⟩
  have htouches := htraces account key _ index address time tip hkey haddress raw hraw _ hread
  exact .inr (List.any_eq_true.2 ⟨account, haccount, decide_eq_true ⟨hne, htouches⟩⟩)

end World.Sound

end VizorWallet.Discovery
