import VizorWallet.Discovery.Scans

/-!
# Readiness is published for complete scans

Over every sequence of passes, rewinds, imports and deletions in which no pass resumes a scope onto
a block that was replaced: an account that is ready has a complete scan of both scopes. A pass asks
for the block hash twice when it resumes, and keeps its progress when the second answer differs.

## Main results

* `readiness_published` — readiness promises complete scans, and progress counts drained histories.
* `replaced_block_ready` — a reorganisation between the two requests makes an account ready whose
  first address was never fetched on the chain of the checkpoint.
-/

namespace VizorWallet.Discovery

variable {server : Server} {packages : Packages} {steady : Prop} {world world' : World}
  {account : Account} {scope : KeyScope} {checkpoint : Checkpoint}

/-- The condition on steps: a scan of a run that begins finds the block of a partial checkpoint in
both requests. -/
def Undisturbed (server : Server) (world : World) : Event → Prop
  | .run tip environment => Steady server environment tip world
  | _ => True

theorem World.Sound.step {event : Event} (hserver : server.Reorganizes)
    (htraces : Traces server packages) (h : world.Sound server packages steady)
    (hok : steady → Undisturbed server world event)
    (hstep : world.step server packages event = some world') :
    world'.Sound server packages steady := by
  cases event with
  | importAccount account =>
    simp only [World.step] at hstep
    split at hstep
    · cases hstep
    · next hnew =>
      obtain rfl := Option.some.inj hstep
      exact h.importAccount hnew
  | run tip environment =>
    obtain rfl := Option.some.inj hstep
    exact (runWith_ends hserver h hok).left
  | rewind height reached =>
    simp only [World.step] at hstep
    split at hstep
    · obtain rfl := Option.some.inj hstep
      cases reached with
      | none => exact h.invalidateForRewind height
      | some reached => exact (h.invalidateForRewind height).truncateToHeight reached
    · cases hstep
  | deleteAccount id =>
    obtain rfl := Option.some.inj hstep
    exact h.deleteAccount htraces id

theorem sound_init : (discovery server packages).init.Sound server packages steady :=
  ⟨List.nodup_nil, List.nodup_nil, nofun⟩

theorem sound_of_reaches (hserver : server.Reorganizes) (htraces : Traces server packages)
    (h : (discovery server packages).Reaches (Undisturbed server) world) :
    world.Sound server packages True :=
  h.invariant sound_init fun _ _ _ hsound hok hstep =>
    hsound.step hserver htraces (fun _ => hok) hstep

theorem sound_of_reachable (hserver : server.Reorganizes) (htraces : Traces server packages)
    (h : (discovery server packages).Reachable world) : world.Sound server packages False :=
  h.invariant sound_init fun _ _ _ hsound _ hstep =>
    hsound.step hserver htraces False.elim hstep

/-- The two scopes of an account that is ready are complete. -/
theorem World.Sound.complete_of_isReady (h : world.Sound server packages steady)
    (hmember : account ∈ world.accounts) (hledger : account.keySource = some keySourceLedger)
    (hready : world.isReady account.uuid = .ok true) (scope : KeyScope) :
    ∃ checkpoint, world.load account.uuid scope = some checkpoint ∧ checkpoint.complete = 2 := by
  have hfind : world.accounts.find? (·.uuid = account.uuid) = some account := by
    have hsome : (world.accounts.find? (·.uuid = account.uuid)).isSome :=
      List.find?_isSome.2 ⟨account, hmember, decide_eq_true rfl⟩
    obtain ⟨other, hother⟩ := Option.isSome_iff_exists.1 hsome
    have huuid := List.find?_some
      (p := fun other : Account => decide (other.uuid = account.uuid)) hother
    rw [hother, List.inj_on_of_nodup_map h.uuids (List.mem_of_find?_eq_some hother) hmember
      (of_decide_eq_true huuid)]
  have hkeys := h.keys
  unfold World.isReady at hready
  unfold World.load
  cases htable : world.table with
  | none => simp [hfind, hledger, htable] at hready
  | some rows =>
    rw [htable] at hkeys
    simp only [hfind, hledger, htable, ne_eq, not_true_eq_false, if_false, Except.ok.injEq,
      decide_eq_true_eq] at hready
    obtain ⟨first, second, hrows⟩ := List.length_eq_two.1 hready
    have hmem : ∀ row ∈ [first, second], row ∈ rows ∧ row.1.account = account.uuid ∧
        row.2.complete = 2 := by
      intro row hrow
      rw [← hrows, List.mem_filter] at hrow
      exact ⟨hrow.1, of_decide_eq_true hrow.2⟩
    have hne : first.1.scope ≠ second.1.scope := by
      have hnodup : ([first, second].map Prod.fst).Nodup :=
        hrows ▸ hkeys.sublist (List.filter_sublist.map _)
      intro hscope
      refine List.rel_of_pairwise_cons hnodup List.mem_cons_self ?_
      have hfirst := (hmem first List.mem_cons_self).2.1
      have hsecond := (hmem second (List.mem_cons_of_mem _ List.mem_cons_self)).2.1
      cases hleft : first.1
      cases hright : second.1
      simp_all
    obtain ⟨row, hrow, hscope⟩ : ∃ row ∈ [first, second], row.1.scope = scope := by
      by_cases hfirst : first.1.scope = scope
      · exact ⟨first, List.mem_cons_self, hfirst⟩
      · refine ⟨second, List.mem_cons_of_mem _ List.mem_cons_self, ?_⟩
        revert hne hfirst
        cases first.1.scope <;> cases second.1.scope <;> cases scope <;> simp
    obtain ⟨hrow, haccount, hcomplete⟩ := hmem row hrow
    refine ⟨row.2, lookup_of_mem hkeys ?_, hcomplete⟩
    rw [← haccount, ← hscope]
    exact hrow

/-- In every sequence of undisturbed steps, readiness promises complete scans. In every sequence of
steps, the progress of a scope counts histories that were read to their end and stored. -/
theorem readiness_published (server : Server) (packages : Packages)
    (hserver : server.Reorganizes) (htraces : Traces server packages) :
    (∀ world, (discovery server packages).Reaches (Undisturbed server) world →
      ∀ account ∈ world.accounts, account.keySource = some keySourceLedger →
      world.isReady account.uuid = .ok true →
      ∀ scope, ∃ checkpoint, world.load account.uuid scope = some checkpoint ∧
        Published server packages world account scope checkpoint) ∧
    ∀ world, (discovery server packages).Reachable world →
      ∀ account ∈ world.accounts, ∀ scope checkpoint,
      world.load account.uuid scope = some checkpoint →
      checkpoint.progress.unused ≤ gapLimit scope ∧
      ∃ key, account.transparentKey = some key ∧
        ∀ index < checkpoint.progress.nextIndex, ∃ time ≤ world.now,
          Fetched server packages world key scope checkpoint.tipHeight time index := by
  constructor
  · intro world hreaches account hmember hledger hready scope
    have hsound := sound_of_reaches hserver htraces hreaches
    obtain ⟨checkpoint, hload, hcomplete⟩ :=
      hsound.complete_of_isReady hmember hledger hready scope
    exact ⟨checkpoint, hload, (hsound.loaded hmember hload).published hserver (by omega)⟩
  · intro world hreachable account hmember scope checkpoint hload
    have hsound := sound_of_reachable hserver htraces hreachable
    obtain ⟨key, hkey, since, moment, hscanning, -⟩ := hsound.loaded hmember hload
    refine ⟨hscanning.walk.unused_le_gap, key, hkey, fun index hindex => ?_⟩
    exact ⟨moment index, hscanning.moment_le index hindex, hscanning.fetched index hindex⟩

/-! ## A replaced block -/

/-- The blocks from 95 on are replaced at time 2, and only the new ones pay the first address. -/
def forkedServer : Server where
  blockHash time height := if time < 2 ∨ height < 95 then "old" else "new"
  history time address tip :=
    if 2 ≤ time ∧ address = "t1e0" ∧ 96 ≤ tip then [⟨96, "deposit"⟩] else []

def plainPackages : Packages where
  read raw := .ok ⟨raw.data⟩
  receiver _ scope index :=
    (match scope with
      | .external => "t1e"
      | .internal => "t1i") ++ toString index
  addressForQuery := .ok
  touches _ _ := true

theorem reorganizes_forkedServer : forkedServer.Reorganizes := by
  intro time
  by_cases htime : time = 1
  · subst htime
    refine .inr ⟨95, fun height hheight => ⟨?_, ?_⟩, fun height hheight past hpast => ?_⟩
    · simp [forkedServer, hheight]
    · funext address
      have htip : ¬ 96 ≤ height := by omega
      simp [forkedServer, htip]
    · have hold : past < 2 ∨ height < 95 := by omega
      have hnew : ¬ (1 + 1 < 2 ∨ height < 95) := by omega
      simp only [forkedServer, if_pos hold, if_neg hnew]
      decide
  · refine .inl ⟨?_, ?_⟩
    · funext height
      have hiff : time + 1 < 2 ↔ time < 2 := by omega
      simp only [forkedServer, hiff]
    · funext height address
      have hiff : 2 ≤ time + 1 ↔ 2 ≤ time := by omega
      simp only [forkedServer, hiff]

theorem traces_plainPackages : Traces forkedServer plainPackages :=
  fun _ _ _ _ _ _ _ _ _ _ _ _ _ => rfl

def ledgerAccount : Account := ⟨"ledger", some keySourceLedger, some "xpub"⟩

def imported : World := ⟨[ledgerAccount], [], [], none, 0, []⟩

/-- A pass that ends after the first address. -/
def firstPass : Environment
  | .message _ .external 1 _ => ⟨0, .crashes, []⟩
  | _ => ⟨0, .done, List.range 20⟩

/-- A pass before the blocks are replaced. -/
def quietPass : Environment := fun _ => ⟨1, .done, List.range 20⟩

/-- The wallet after a pass at tip 100 that was interrupted. -/
def interrupted : World := ((runWith forkedServer plainPackages firstPass 100).runFrom imported).2

/-- The wallet after an undisturbed pass. -/
def scanned : World := ((runWith forkedServer plainPackages quietPass 100).runFrom interrupted).2

/-- An undisturbed pass resumes the scope that was interrupted, and leaves the account ready with a
complete scan of both scopes. -/
theorem readiness_published_scanned :
    interrupted.load "ledger" .external = some ⟨⟨1, 1⟩, 100, "old", 0⟩ ∧
    scanned.isReady "ledger" = .ok true ∧
    ∀ scope, ∃ checkpoint, scanned.load "ledger" scope = some checkpoint ∧
      Published forkedServer plainPackages scanned ledgerAccount scope checkpoint := by
  have hready : scanned.isReady "ledger" = .ok true := by decide +kernel
  have hreaches : (discovery forkedServer plainPackages).Reaches (Undisturbed forkedServer)
      scanned := by
    have himported : (discovery forkedServer plainPackages).Reaches (Undisturbed forkedServer)
        imported := Transition.Reaches.init.step (e := .importAccount ledgerAccount) trivial rfl
    have hinterrupted : (discovery forkedServer plainPackages).Reaches (Undisturbed forkedServer)
        interrupted :=
      himported.step (e := .run 100 firstPass) (fun _ _ _ hload => nomatch hload) rfl
    -- Both requests of a scope are made at one time.
    exact hinterrupted.step (e := .run 100 quietPass) (fun _ _ _ _ _ _ _ _ hsame => hsame) rfl
  exact ⟨by decide +kernel, hready, (readiness_published forkedServer plainPackages
    reorganizes_forkedServer traces_plainPackages).1 scanned hreaches ledgerAccount
    (by decide +kernel) rfl hready⟩

/-- The next pass: the block is replaced after the scope resumes. -/
def secondPass : Environment
  | .accounts | .table | .ready _ | .checkpoint _ .external | .resume _ .external => ⟨1, .done, []⟩
  | _ => ⟨2, .done, List.range 20⟩

/-- An account is ready although the history of its first address was never fetched from the chain
that has the block of the checkpoint. -/
theorem replaced_block_ready :
    ¬ ∀ (server : Server) (packages : Packages), server.Reorganizes → Traces server packages →
      ∀ world, (discovery server packages).Reachable world →
      ∀ account ∈ world.accounts, account.keySource = some keySourceLedger →
      world.isReady account.uuid = .ok true →
      ∀ scope, ∃ checkpoint, world.load account.uuid scope = some checkpoint ∧
        Published server packages world account scope checkpoint := by
  intro hall
  let events : List Event :=
    [.importAccount ledgerAccount, .run 100 firstPass, .run 100 secondPass]
  let final := ((discovery forkedServer plainPackages).run
    (discovery forkedServer plainPackages).init events).get (by decide +kernel)
  have hreachable : (discovery forkedServer plainPackages).Reachable final :=
    Transition.Reachable.run .init (Option.some_get _).symm
  obtain ⟨checkpoint, hload, hpublished⟩ := hall forkedServer plainPackages
    reorganizes_forkedServer traces_plainPackages final hreachable ledgerAccount
    (by decide +kernel) rfl (by decide +kernel) .external
  have hcheckpoint : final.load ledgerAccount.uuid .external =
      some ⟨⟨10, 10⟩, 100, "new", 2⟩ := by decide +kernel
  obtain rfl := Option.some.inj (hload.symm.trans hcheckpoint)
  obtain ⟨key, -, time, -, hhash, hfetched, -⟩ := hpublished
  obtain ⟨address, haddress, hdrained, -⟩ := hfetched 0 (by decide)
  obtain rfl : "t1e0" = address := Except.ok.inj haddress
  have htime : 2 ≤ time := by
    by_contra hlt
    have hold : forkedServer.blockHash time 100 = "old" :=
      if_pos (Or.inl (Nat.lt_of_not_le hlt))
    rw [hold] at hhash
    exact absurd hhash (by decide)
  have hhistory : forkedServer.history time "t1e0" 100 = [⟨96, "deposit"⟩] := by
    simp [forkedServer, htime]
  rw [hhistory] at hdrained
  have hnever : (⟨"t1e0", 100, [⟨96, "deposit"⟩]⟩ : Drained) ∉ final.drained := by decide +kernel
  exact hnever hdrained

end VizorWallet.Discovery
