import VizorWallet.Discovery.Evidence
import VizorWallet.Library.Outcome
import VizorWallet.Library.Pointwise

/-!
# Passes keep the checkpoints sound

One lemma for each part of a pass says how it ends. Whatever stops a pass leaves sound checkpoints;
the evidence of a scope grows with each drained history, and is complete at the end of its scan.

## Main results

* `scan_ends` — a scan ends at the gap limit, with the evidence for it.
* `discoverScope_ends`, `confirmScope_ends`, `discoverAccount_ends`
* `runWith_ends` — a pass keeps the checkpoints sound.
-/

namespace VizorWallet.Discovery

variable {server : Server} {packages : Packages} {environment : Environment} {steady : Prop}
  {world world' before after : World} {account : Account} {id : AccountUuid} {key : TransparentKey}
  {scope : KeyScope} {tip since index transactions : ℕ} {progress : Progress} {hash : BlockHash}
  {checkpoint : Checkpoint} {history : Drained} {items : List RawTransaction}
  (point : Point)

/-! ## Points -/

theorem reach_ends : Ends (reach environment point) world
    (fun outcome world' => world.Quiet world' ∧ world'.now = (environment point).time ∧
      outcome = (environment point).outcome)
    fun _ => world.Quiet := by
  unfold reach
  refine ends_get_bind ?_
  split
  · exact ends_throw_bind (.refl world)
  · next htime =>
    refine ends_modify_bind (ends_pure ⟨?_, rfl, rfl⟩)
    exact ⟨rfl, rfl, Nat.le_of_not_lt htime, fun _ => id, fun _ => id⟩

theorem checkExit_ends : Ends (checkExit environment point) world (fun _ => world.Quiet)
    fun _ => world.Quiet := by
  unfold checkExit
  refine (reach_ends point).bind fun outcome world' hreached => ?_
  split
  · exact ends_throw hreached.1
  · exact ends_throw hreached.1
  · exact ends_pure hreached.1

theorem database_ends : Ends (database environment point) world (fun _ => world.Quiet)
    fun _ => world.Quiet := by
  unfold database
  refine (reach_ends point).bind fun outcome world' hreached => ?_
  split
  · exact ends_throw hreached.1
  · exact ends_throw hreached.1
  · exact ends_pure hreached.1

theorem await_ends : Ends (await environment point) world
    (fun _ world' => world.Quiet world' ∧ world'.now = (environment point).time ∧
      (environment point).outcome = .done)
    fun _ => world.Quiet := by
  unfold await
  refine (reach_ends point).bind fun outcome world' hreached => ?_
  cases outcome with
  | done => exact ends_pure ⟨hreached.1, hreached.2.1, hreached.2.2.symm⟩
  | exits => exact ends_throw hreached.1
  | fails error => exact ends_throw hreached.1
  | crashes => exact ends_throw hreached.1

theorem blockHash_ends (height : ℕ) : Ends (blockHash server environment point height) world
    (fun hash world' => world.Quiet world' ∧ world'.now = (environment point).time ∧
      hash = server.blockHash (environment point).time height ∧
      (environment point).outcome = .done)
    fun _ => world.Quiet := by
  unfold blockHash
  refine (await_ends point).bind fun _ world' ⟨hquiet, hnow, hdone⟩ =>
    ends_get_bind (ends_pure ?_)
  exact ⟨hquiet, hnow, by rw [hnow], hdone⟩

theorem checkExit_stops (h : (environment point).outcome = .exits ∨
      (environment point).outcome = .crashes) :
    Ends (checkExit environment point) world (fun _ _ => False) fun _ => world.Quiet := by
  unfold checkExit
  refine (reach_ends point).bind fun outcome world' ⟨hquiet, _, hsame⟩ => ?_
  rw [hsame]
  rcases h with h | h <;> rw [h] <;> exact ends_throw hquiet

theorem database_stops {error : SyncError} (h : (environment point).outcome = .fails error) :
    Ends (database environment point) world (fun _ _ => False) fun _ => world.Quiet := by
  unfold database
  refine (reach_ends point).bind fun outcome world' ⟨hquiet, _, hsame⟩ => ?_
  rw [hsame, h]
  exact ends_throw hquiet

/-- A point that is not left in the ordinary way lets no write through. -/
theorem begin_stops {α : Type} {next : Unit → Pass α} {Q : α → World → Prop}
    (hpoint : (environment point).outcome ≠ .done) :
    Ends (checkExit environment point >>= fun _ =>
      save environment point id scope checkpoint >>= next) world Q fun _ => world.Quiet := by
  cases houtcome : (environment point).outcome with
  | done => exact absurd houtcome hpoint
  | exits => exact (checkExit_stops point (.inl houtcome)).bind fun _ _ => False.elim
  | crashes => exact (checkExit_stops point (.inr houtcome)).bind fun _ _ => False.elim
  | fails error =>
    refine (checkExit_ends point).bind fun _ world₁ hquiet₁ => ?_
    unfold save
    refine Ends.bind (Ends.bind (Q := fun _ _ => False) ?_ fun _ _ => False.elim)
      fun _ _ => False.elim
    exact (database_stops point houtcome).mono (fun _ _ hnever => hnever) fun _ _ => hquiet₁.trans

/-- A part that leaves the checkpoints alone leaves them sound where it stops. -/
theorem World.Sound.ends {α : Type} {m : Pass α} {Q : α → World → Prop}
    (h : world.Sound server packages steady) (hm : Ends m world Q fun _ => world.Quiet) :
    Ends m world Q fun _ world' => world'.Sound server packages steady :=
  hm.mono (fun _ _ hQ => hQ) fun _ _ => h.quiet

/-! ## Histories -/

theorem World.quiet_storeTransaction (transaction : Transaction) (height : ℕ) :
    world.Quiet (world.storeTransaction transaction height) ∧
      (world.storeTransaction transaction height).Stored transaction := by
  refine ⟨⟨rfl, rfl, le_rfl, fun _ hmem => hmem, fun other hother => ?_⟩, ?_⟩
  · obtain ⟨mined, hmem⟩ := hother
    by_cases hsame : other = transaction
    · exact ⟨some height, hsame ▸ List.mem_cons_self⟩
    · exact ⟨mined, List.mem_cons_of_mem _ (List.mem_filter.2 ⟨hmem, decide_eq_true hsame⟩)⟩
  · exact ⟨some height, List.mem_cons_self⟩

theorem World.quiet_addresses (world : World) (addresses : List (ScopeKey × List ℕ)) :
    world.Quiet { world with addresses := addresses } :=
  ⟨rfl, rfl, le_rfl, fun _ hmem => hmem, fun _ hstored => hstored⟩

/-- What draining a history leaves of its items. -/
def Kept (packages : Packages) (tip : ℕ) (items : List RawTransaction) (world : World) : Prop :=
  ∀ raw ∈ items, (0 < raw.height ∧ raw.height ≤ tip) ∧
    ∃ transaction, packages.read raw = .ok transaction ∧ world.Stored transaction

/-- A drained history is stored, and found to be used when it has items. -/
theorem storeHistory_ends :
    Ends (storeHistory packages environment id scope index history transactions items) world
      (fun used world' => world.Quiet world' ∧ history ∈ world'.drained ∧
        Kept packages history.tip items world' ∧ (used = true ↔ 0 < transactions + items.length))
      fun _ => world.Quiet := by
  induction items generalizing world transactions with
  | nil =>
    unfold storeHistory
    refine (await_ends _).bind fun _ world' ⟨hquiet, _⟩ => ends_modify_bind (ends_pure ?_)
    refine ⟨hquiet.trans ⟨rfl, rfl, le_rfl, fun _ => List.mem_cons_of_mem _, fun _ hstored =>
      hstored⟩, List.mem_cons_self, nofun, ?_⟩
    simp
  | cons raw rest ih =>
    unfold storeHistory
    refine (await_ends _).bind fun _ world₁ ⟨hquiet₁, _⟩ => ?_
    dsimp only
    split
    · exact ends_throw_bind hquiet₁
    · next hheight =>
      cases hread : packages.read raw with
      | error error => exact ends_throw hquiet₁
      | ok transaction =>
        refine (checkExit_ends _).mono (fun _ _ => hquiet₁.trans) (fun _ _ => hquiet₁.trans)
          |>.bind fun _ world₂ hquiet₂ => ?_
        refine (database_ends _).mono (fun _ _ => hquiet₂.trans) (fun _ _ => hquiet₂.trans)
          |>.bind fun _ world₃ hquiet₃ => ?_
        refine ends_modify_bind ?_
        obtain ⟨hquiet₄, hstored⟩ :=
          world₃.quiet_storeTransaction transaction raw.height
        refine ih.mono (fun used world' hend => ?_) fun _ _ => (hquiet₃.trans hquiet₄).trans
        obtain ⟨hquiet, hdrained, hkept, hused⟩ := hend
        refine ⟨(hquiet₃.trans hquiet₄).trans hquiet, hdrained, fun other hother => ?_, ?_⟩
        · obtain rfl | hrest := List.mem_cons.1 hother
          · exact ⟨not_not.1 hheight, transaction, hread, hquiet.stored _ hstored⟩
          · exact hkept other hrest
        · rw [hused, List.length_cons]
          omega

/-- A history that was asked for, for an index, since some time. -/
def Opened (server : Server) (packages : Packages) (key : TransparentKey) (scope : KeyScope)
    (tip since : ℕ) (world : World) (stream : ℕ × Drained) : Prop :=
  ∃ address time, packages.addressForQuery (packages.receiver key scope stream.1) = .ok address ∧
    since ≤ time ∧ time ≤ world.now ∧ stream.2 = ⟨address, tip, server.history time address tip⟩

theorem openHistories_ends {candidates : List (ℕ × String)} (hsince : since ≤ world.now)
    (hcandidates : ∀ candidate ∈ candidates,
      packages.addressForQuery (packages.receiver key scope candidate.1) = .ok candidate.2) :
    Ends (openHistories server environment id scope tip candidates) world
      (fun streams world' => world.Quiet world' ∧ streams.length = candidates.length ∧
        ∀ stream ∈ streams, Opened server packages key scope tip since world' stream)
      fun _ => world.Quiet := by
  induction candidates generalizing world with
  | nil => exact ends_pure ⟨.refl world, rfl, nofun⟩
  | cons candidate rest ih =>
    unfold openHistories
    refine (await_ends _).bind fun _ world₁ ⟨hquiet₁, _⟩ => ends_get_bind ?_
    have hrest := ih (hsince.trans hquiet₁.now_le) fun other hother =>
      hcandidates other (List.mem_cons_of_mem candidate hother)
    refine (hrest.mono (fun _ _ hQ => hQ) fun _ _ => hquiet₁.trans).bind ?_
    rintro streams world₂ ⟨hquiet₂, hlength, hopened⟩
    refine ends_pure ⟨hquiet₁.trans hquiet₂, congrArg (· + 1) hlength, fun stream hstream => ?_⟩
    obtain rfl | hold := List.mem_cons.1 hstream
    · exact ⟨candidate.2, world₁.now, hcandidates candidate List.mem_cons_self,
        hsince.trans hquiet₁.now_le, hquiet₂.now_le, rfl⟩
    · exact hopened stream hold

theorem nextCandidates_eq_ok {next limit : ℕ} {candidates : List (ℕ × String)}
    (h : nextCandidates packages world id key scope next limit = .ok candidates) :
    candidates.length ≤ limit ∧ ∀ candidate ∈ candidates,
      packages.addressForQuery (packages.receiver key scope candidate.1) = .ok candidate.2 := by
  have hall := mapM_eq_ok.1 h
  refine ⟨hall.length_eq ▸ List.length_take_le _ _, fun candidate hmem => ?_⟩
  obtain ⟨position, -, hposition⟩ := exists_mem_left hall hmem
  obtain ⟨address, haddress, hpair⟩ := bind_eq_ok.1 hposition
  obtain rfl := pure_eq_ok.1 hpair
  exact haddress

/-! ## Scopes -/

/-- Only the checkpoint of one scope has changed. -/
structure World.Differs (id : AccountUuid) (scope : KeyScope) (before after : World) : Prop where
  accounts : after.accounts = before.accounts
  others : ∀ id' scope', ScopeKey.mk id' scope' ≠ ⟨id, scope⟩ →
    after.load id' scope' = before.load id' scope'

theorem World.Differs.refl (world : World) : World.Differs id scope world world :=
  ⟨rfl, fun _ _ _ => rfl⟩

theorem World.Differs.quiet (h : World.Differs id scope before after)
    (hquiet : after.Quiet world) : World.Differs id scope before world where
  accounts := hquiet.accounts.trans h.accounts
  others id' scope' hne := by
    rw [hquiet.load]
    exact h.others id' scope' hne

theorem World.Differs.save (h : World.Differs id scope before after) (checkpoint : Checkpoint) :
    World.Differs id scope before (after.save id scope checkpoint) := by
  unfold World.save
  split
  · refine ⟨h.accounts, fun id' scope' hne => (h.others id' scope' hne) ▸ ?_⟩
    unfold World.load
    cases after.table with
    | none => rfl
    | some rows => exact (lookup_insertKey _ _ checkpoint rows).trans (if_neg hne)
  · exact h

/-- A scan under way: the checkpoints are sound, and so is the progress. -/
structure Going (server : Server) (packages : Packages) (steady : Prop) (before : World)
    (account : Account) (key : TransparentKey) (scope : KeyScope) (tip since : ℕ)
    (progress : Progress) (world : World) : Prop where
  sound : world.Sound server packages steady
  member : account ∈ world.accounts
  differs : World.Differs account.uuid scope before world
  scanning : ∃ moment,
    Scanning server packages steady world key scope tip progress since moment

namespace Going

theorem quiet (h : Going server packages steady before account key scope tip since progress world)
    (hquiet : world.Quiet world') :
    Going server packages steady before account key scope tip since progress world' where
  sound := h.sound.quiet hquiet
  member := hquiet.accounts ▸ h.member
  differs := h.differs.quiet hquiet
  scanning := h.scanning.imp fun _ hscanning => hscanning.quiet hquiet

theorem save (h : Going server packages steady before account key scope tip since progress world)
    (hkey : account.transparentKey = some key) (hhash : server.blockHash since tip = hash) :
    Going server packages steady before account key scope tip since progress
      (world.save account.uuid scope ⟨progress, tip, hash, 0⟩) := by
  obtain ⟨moment, hscanning⟩ := h.scanning
  have hany : world.accounts.any (·.uuid = account.uuid) = true :=
    List.any_eq_true.2 ⟨account, h.member, decide_eq_true rfl⟩
  refine ⟨h.sound.save h.member ⟨key, hkey, since, moment, hscanning, hhash, fun hne =>
    absurd rfl hne⟩, ?_, h.differs.save _, moment, ?_⟩
  · rw [World.save, if_pos hany]
    exact h.member
  · rw [World.save, if_pos hany]
    exact hscanning.mono le_rfl fun _ _ hfetched => hfetched

end Going

theorem save_ends (hkey : account.transparentKey = some key)
    (hhash : server.blockHash since tip = hash)
    (hgoing : Going server packages steady before account key scope tip since progress world) :
    Ends (save environment point account.uuid scope ⟨progress, tip, hash, 0⟩) world
      (fun _ world' => Going server packages steady before account key scope tip since progress
        world' ∧ world.now ≤ world'.now)
      fun _ world' => world'.Sound server packages steady := by
  unfold Discovery.save
  refine (hgoing.sound.ends (database_ends point)).bind fun _ world₁ hquiet => ends_modify ?_
  refine ⟨(hgoing.quiet hquiet).save hkey hhash, hquiet.now_le.trans_eq ?_⟩
  unfold World.save
  split <;> rfl

/-- Each drained history of a batch advances the scan. -/
theorem scanBatch_ends (hkey : account.transparentKey = some key)
    (hhash : server.blockHash since tip = hash) {streams : List (ℕ × Drained)}
    (hgoing : Going server packages steady before account key scope tip since progress world)
    (hlength : streams.length ≤ gapLimit scope - progress.unused)
    (hopened : ∀ stream ∈ streams, Opened server packages key scope tip since world stream) :
    Ends (scanBatch packages environment account.uuid scope tip hash streams progress) world
      (fun progress' world' => Going server packages steady before account key scope tip since
        progress' world' ∧ world.now ≤ world'.now)
      fun _ world' => world'.Sound server packages steady := by
  induction streams generalizing world progress with
  | nil => exact ends_pure ⟨hgoing, le_rfl⟩
  | cons stream rest ih =>
    obtain ⟨index, history⟩ := stream
    obtain ⟨address, time, haddress, hsince, htime, rfl⟩ := hopened _ List.mem_cons_self
    unfold scanBatch
    dsimp only
    split
    · exact ends_throw_bind hgoing.sound
    · next hindex =>
      obtain rfl := not_not.1 hindex
      refine (hgoing.sound.ends storeHistory_ends).bind ?_
      rintro used world₁ ⟨hquiet₁, hdrained, hkept, hused⟩
      refine ((hgoing.quiet hquiet₁).sound.ends (checkExit_ends _)).bind fun _ world₂ hquiet₂ => ?_
      have hgoing₂ := (hgoing.quiet hquiet₁).quiet hquiet₂
      cases hadvance : progress.advance used with
      | error error => exact ends_throw hgoing₂.sound
      | ok progress' =>
        rw [List.length_cons] at hlength
        have hopen : progress.unused < gapLimit scope := by omega
        obtain ⟨moment, hscanning⟩ := hgoing₂.scanning
        have hfetched : Fetched server packages world₂ key scope tip time progress.nextIndex :=
          Fetched.mono ⟨address, haddress, hdrained, hkept⟩ hquiet₂.drained hquiet₂.stored
        have hnow := htime.trans (hquiet₁.now_le.trans hquiet₂.now_le)
        have hgoing₃ : Going server packages steady before account key scope tip since progress'
            world₂ := by
          refine ⟨hgoing₂.sound, hgoing₂.member, hgoing₂.differs, ?_⟩
          refine hscanning.advance hopen hsince hnow hfetched (hused.trans ?_) hadvance
          rw [Nat.zero_add, List.length_pos_iff]
          refine ⟨fun hne => ⟨address, haddress, hne⟩, fun ⟨address', haddress', hne⟩ => ?_⟩
          rwa [← Except.ok.inj (haddress.symm.trans haddress')] at hne
        refine (save_ends _ hkey hhash hgoing₃).bind fun _ world₃ ⟨hgoing₄, hnow₃⟩ => ?_
        have hle := hquiet₁.now_le.trans (hquiet₂.now_le.trans hnow₃)
        refine (ih hgoing₄ ?_ fun other hother => ?_).mono
          (fun _ _ hend => ⟨hend.1, hle.trans hend.2⟩) fun _ _ hsound => hsound
        · unfold Progress.advance at hadvance
          split at hadvance
          · obtain rfl := Except.ok.inj hadvance
            dsimp only
            split <;> omega
          · cases hadvance
        · obtain ⟨address', time', haddress', hsince', htime', heq⟩ :=
            hopened other (List.mem_cons_of_mem _ hother)
          exact ⟨address', time', haddress', hsince', htime'.trans hle, heq⟩

/-- A scan ends when as many indices are unused as the gap limit asks for. -/
theorem scan_ends (hkey : account.transparentKey = some key)
    (hhash : server.blockHash since tip = hash) (rounds : ℕ)
    (hgoing : Going server packages steady before account key scope tip since progress world) :
    Ends (scan server packages environment account.uuid key scope tip hash rounds progress) world
      (fun progress' world' => Going server packages steady before account key scope tip since
        progress' world' ∧ gapLimit scope ≤ progress'.unused)
      fun _ world' => world'.Sound server packages steady := by
  induction rounds generalizing world progress with
  | zero => exact ends_throw hgoing.sound
  | succ rounds ih =>
    unfold scan
    split
    swap
    · next hgap => exact ends_pure ⟨hgoing, Nat.le_of_not_lt hgap⟩
    · refine (hgoing.sound.ends (checkExit_ends _)).bind fun _ world₁ hquiet₁ => ?_
      have hgoing₁ := hgoing.quiet hquiet₁
      refine (hgoing₁.sound.ends (database_ends _)).bind fun _ world₂ hquiet₂ => ?_
      refine ends_modify_bind ?_
      have hgoing₃ := fun addresses =>
        (hgoing₁.quiet hquiet₂).quiet (world₂.quiet_addresses addresses)
      refine ((hgoing₃ _).sound.ends (database_ends _)).bind fun _ world₄ hquiet₄ => ?_
      have hgoing₄ := (hgoing₃ _).quiet hquiet₄
      refine ends_get_bind ?_
      split
      · exact ends_throw hgoing₄.sound
      · next candidates hcandidates =>
        obtain ⟨hlength, haddresses⟩ := nextCandidates_eq_ok hcandidates
        dsimp only
        split
        · exact ends_throw_bind hgoing₄.sound
        · obtain ⟨moment, hscanning⟩ := hgoing₄.scanning
          refine (hgoing₄.sound.ends (openHistories_ends hscanning.since_le haddresses)).bind ?_
          rintro streams world₅ ⟨hquiet₅, hstreams, hopened⟩
          have hbatch : streams.length ≤ gapLimit scope - progress.unused :=
            hstreams ▸ hlength.trans (Nat.min_le_left _ _)
          refine (scanBatch_ends hkey hhash (hgoing₄.quiet hquiet₅) hbatch hopened).bind ?_
          exact fun progress' world₆ hend => ih hend.1

/-- The requests of a scope for its block are answered, and its scan begins. -/
def Begins (environment : Environment) (id : AccountUuid) (scope : KeyScope) : Prop :=
  (environment (.resume id scope)).outcome = .done ∧
    (environment (.anchor id scope)).outcome = .done ∧
    (environment (.begin id scope)).outcome = .done

/-- The block at the tip of a partial checkpoint is still there when a scan that begins asks for it
again, after the request that lets the scan resume. -/
def Unreplaced (server : Server) (environment : Environment) (tip : ℕ) (id : AccountUuid)
    (scope : KeyScope) (checkpoint : Checkpoint) : Prop :=
  Begins environment id scope → checkpoint.complete = 0 → checkpoint.progress.nextIndex ≠ 0 →
    checkpoint.tipHeight ≤ tip →
    server.blockHash (environment (.resume id scope)).time checkpoint.tipHeight =
      checkpoint.tipHash →
    server.blockHash (environment (.anchor id scope)).time checkpoint.tipHeight =
      checkpoint.tipHash

/-- A scan starts anew, or resumes a partial checkpoint whose block is there. -/
def Resumes (server : Server) (environment : Environment) (tip : ℕ) (id : AccountUuid)
    (scope : KeyScope) (state : Option Checkpoint) (start : Progress × ℕ) : Prop :=
  start = (default, tip) ∨ ∃ saved, state = some saved ∧ saved.tipHeight ≤ tip ∧
    saved.complete = 0 ∧ (environment (.resume id scope)).outcome = .done ∧
    server.blockHash (environment (.resume id scope)).time saved.tipHeight = saved.tipHash ∧
    start = (saved.progress, saved.tipHeight)

theorem resume_ends (state : Option Checkpoint) :
    Ends (resume server environment id scope tip state) world
      (fun result world' => world.Quiet world' ∧
        ∀ start, result = some start → Resumes server environment tip id scope state start)
      fun _ => world.Quiet := by
  have hanew : ∀ start, some ((default : Progress), tip) = some start →
      Resumes server environment tip id scope state start :=
    fun _ hstart => .inl (Option.some.inj hstart).symm
  unfold resume
  cases state with
  | none => exact ends_pure ⟨.refl world, hanew⟩
  | some saved =>
    dsimp only
    split
    swap
    · exact ends_pure ⟨.refl world, hanew⟩
    · next htip =>
      refine (blockHash_ends _ _).bind fun actual world₁ ⟨hquiet, _, hactual, hdone⟩ => ?_
      split
      swap
      · exact ends_pure ⟨hquiet, hanew⟩
      · next hsame =>
        split
        · exact ends_pure ⟨hquiet, nofun⟩
        · next hcomplete =>
          refine ends_pure ⟨hquiet, fun start hstart => .inr ⟨saved, rfl, htip, ?_⟩⟩
          exact ⟨not_not.1 hcomplete, hdone, hactual.symm.trans hsame,
            (Option.some.inj hstart).symm⟩

theorem World.Sound.loaded (h : world.Sound server packages steady)
    (hmember : account ∈ world.accounts) (hload : world.load account.uuid scope = some checkpoint) :
    checkpoint.Sound server packages steady world account scope := by
  obtain ⟨owner, howner, huuid, hsound⟩ := h.checkpoints _ (mem_of_lookup_eq_some hload)
  obtain rfl := List.inj_on_of_nodup_map h.uuids howner hmember huuid
  exact hsound

/-- A scan that starts anew or resumes has a first time at which the chain had its block. -/
theorem going_of_resume {result : Progress × ℕ} (hsound : world.Sound server packages steady)
    (hmember : account ∈ world.accounts) (hkey : account.transparentKey = some key)
    (hdiffers : World.Differs account.uuid scope before world)
    (hnow : world.now = (environment (.anchor account.uuid scope)).time)
    (hanchor : (environment (.anchor account.uuid scope)).outcome = .done)
    (hbegin : (environment (.begin account.uuid scope)).outcome = .done)
    (hsteady : steady → ∀ checkpoint, world.load account.uuid scope = some checkpoint →
      Unreplaced server environment tip account.uuid scope checkpoint)
    (hresult : Resumes server environment tip account.uuid scope
      (world.load account.uuid scope) result) :
    ∃ since, server.blockHash since result.2 = server.blockHash world.now result.2 ∧
      Going server packages steady before account key scope result.2 since result.1 world := by
  obtain rfl | ⟨saved, hload, htip, hcomplete, hdone, hresume, rfl⟩ := hresult
  · exact ⟨world.now, rfl, hsound, hmember, hdiffers, fun _ => 0, .start le_rfl⟩
  · obtain ⟨key', hkey', since, moment, hscanning, hhash, -⟩ := hsound.loaded hmember hload
    obtain rfl := Option.some.inj (hkey.symm.trans hkey')
    by_cases hkept : server.blockHash world.now saved.tipHeight = saved.tipHash
    · exact ⟨since, hhash.trans hkept.symm, hsound, hmember, hdiffers, moment, hscanning⟩
    · -- The block was replaced in between, which a steady chain allows only for empty progress.
      refine ⟨world.now, rfl, hsound, hmember, hdiffers, moment, hscanning.restart le_rfl ?_⟩
      intro hs
      by_contra hprogress
      rw [hnow] at hkept
      exact hkept (hsteady hs saved hload ⟨hdone, hanchor, hbegin⟩ hcomplete hprogress htip hresume)

/-- A scope is discovered with the evidence for its checkpoint. -/
theorem discoverScope_ends (hserver : server.Reorganizes)
    (hsound : world.Sound server packages steady) (hmember : account ∈ world.accounts)
    (hkey : account.transparentKey = some key)
    (hsteady : steady → ∀ checkpoint, world.load account.uuid scope = some checkpoint →
      Unreplaced server environment tip account.uuid scope checkpoint) :
    Ends (discoverScope server packages environment tip account.uuid key scope) world
      (fun _ world' => world'.Sound server packages steady ∧
        World.Differs account.uuid scope world world')
      fun _ world' => world'.Sound server packages steady := by
  unfold discoverScope
  refine (hsound.ends (checkExit_ends _)).bind fun _ world₁ hquiet₁ => ?_
  refine ((hsound.quiet hquiet₁).ends (database_ends _)).bind fun _ world₂ hquiet₂ => ?_
  replace hquiet₂ := hquiet₁.trans hquiet₂
  refine ends_get_bind ?_
  refine ((hsound.quiet hquiet₂).ends (resume_ends _)).bind fun result world₃ hend => ?_
  obtain ⟨hquiet₃, hresult⟩ := hend
  replace hquiet₃ := hquiet₂.trans hquiet₃
  cases result with
  | none => exact ends_pure ⟨hsound.quiet hquiet₃, (World.Differs.refl world).quiet hquiet₃⟩
  | some result =>
    obtain ⟨progress, scanTip⟩ := result
    dsimp only
    refine ((hsound.quiet hquiet₃).ends (blockHash_ends _ _)).bind fun hash world₄ hend => ?_
    obtain ⟨hquiet₄, hnow₄, rfl, hanchor⟩ := hend
    replace hquiet₄ := hquiet₃.trans hquiet₄
    have hstart := hresult _ rfl
    rw [hquiet₂.load, ← hquiet₄.load] at hstart
    rw [← hquiet₄.load] at hsteady
    by_cases hbegin : (environment (.begin account.uuid scope)).outcome = .done
    swap
    · exact (hsound.quiet hquiet₄).ends (begin_stops _ hbegin)
    obtain ⟨since, hhash, hgoing⟩ := going_of_resume (hsound.quiet hquiet₄)
      (hquiet₄.accounts ▸ hmember) hkey ((World.Differs.refl world).quiet hquiet₄) hnow₄ hanchor
      hbegin hsteady hstart
    rw [hnow₄] at hhash
    refine (hgoing.sound.ends (checkExit_ends _)).bind fun _ world₅ hquiet₅ => ?_
    refine (save_ends _ hkey hhash (hgoing.quiet hquiet₅)).bind fun _ world₆ hend => ?_
    refine (scan_ends hkey hhash _ hend.1).bind fun progress' world₇ ⟨hgoing₇, hgap⟩ => ?_
    refine (hgoing₇.sound.ends (blockHash_ends _ _)).bind fun finalHash world₈ hend => ?_
    obtain ⟨hquiet₈, hnow₈, hfinal, -⟩ := hend
    have hgoing₈ := hgoing₇.quiet hquiet₈
    split
    · have hstart : Going server packages steady world account key scope scanTip world₈.now default
          world₈ :=
        ⟨hgoing₈.sound, hgoing₈.member, hgoing₈.differs, fun _ => 0, .start le_rfl⟩
      refine Ends.bind (save_ends _ hkey ?_ hstart) fun _ _ hend => ends_throw_bind hend.1.sound
      rw [hnow₈, hfinal]
    · next hsame =>
      replace hsame := not_not.1 hsame
      refine (hgoing₈.sound.ends (checkExit_ends _)).bind fun _ world₉ hquiet₉ => ?_
      unfold save
      refine ((hgoing₈.quiet hquiet₉).sound.ends (database_ends _)).bind fun _ world₁₀ hquiet₁₀ =>
        ends_modify ?_
      replace hquiet₁₀ := hquiet₉.trans hquiet₁₀
      have hgoing₁₀ := hgoing₈.quiet hquiet₁₀
      obtain ⟨moment, hscanning⟩ := hgoing₈.scanning
      refine ⟨hgoing₁₀.sound.save hgoing₁₀.member ⟨key, hkey, since, moment,
        hscanning.quiet hquiet₁₀, hhash, fun _ => ⟨?_, fun hs index hindex => ?_⟩⟩,
        hgoing₁₀.differs.save _⟩
      · exact hscanning.walk.unused_le_gap.antisymm hgap
      · have hlast : moment index ≤ (environment (.final account.uuid scope)).time :=
          hnow₈ ▸ hscanning.moment_le index hindex
        have hsince := hscanning.since_le_moment hs index hindex
        rw [hfinal] at hsame
        exact (Reorganizes.between hserver hsince hlast (hhash.trans hsame.symm)).1.trans hsame

/-- Confirming a scope changes no checkpoint, or restarts one and stops. -/
theorem confirmScope_ends (hsound : world.Sound server packages steady)
    (hmember : account ∈ world.accounts) (hkey : account.transparentKey = some key) :
    Ends (confirmScope server environment account.uuid scope) world (fun _ => world.Quiet)
      fun _ world' => world'.Sound server packages steady := by
  unfold confirmScope
  refine (hsound.ends (database_ends _)).bind fun _ world₁ hquiet₁ => ends_get_bind ?_
  have hsound₁ := hsound.quiet hquiet₁
  cases world₁.load account.uuid scope with
  | none => exact ends_throw hsound₁
  | some saved =>
    dsimp only
    split
    · exact ends_throw_bind hsound₁
    · refine (hsound₁.ends (blockHash_ends _ _)).bind fun actual world₂ hend => ?_
      obtain ⟨hquiet₂, hnow₂, hactual, -⟩ := hend
      have hsound₂ := hsound₁.quiet hquiet₂
      split
      · refine (hsound₂.ends (checkExit_ends _)).bind fun _ world₃ hquiet₃ => ?_
        have hstart : Going server packages steady world₂ account key scope saved.tipHeight
            world₂.now default world₂ :=
          ⟨hsound₂, (hquiet₁.trans hquiet₂).accounts ▸ hmember, .refl world₂, fun _ => 0,
            .start le_rfl⟩
        refine Ends.bind (save_ends _ hkey ?_ (hstart.quiet hquiet₃)) fun _ _ hend =>
          ends_throw hend.1.sound
        rw [hnow₂, hactual]
      · exact ends_pure (hquiet₁.trans hquiet₂)

/-! ## Accounts -/

/-- Only the checkpoints of one account have changed. -/
structure World.Spares (id : AccountUuid) (before after : World) : Prop where
  accounts : after.accounts = before.accounts
  others : ∀ id' scope, id' ≠ id → after.load id' scope = before.load id' scope

theorem World.load_publish {id' : AccountUuid} (hne : id' ≠ id) :
    (world.publish id).load id' scope = world.load id' scope := by
  unfold World.publish World.load
  cases world.table with
  | none => rfl
  | some rows =>
    change List.lookup _ (rows.map _) = rows.lookup _
    induction rows with
    | nil => rfl
    | cons row rest ih =>
      rw [List.map_cons, List.lookup_cons, List.lookup_cons, ih]
      by_cases hrow : row.1.account = id ∧ row.2.complete = 1
      · have hkey : (⟨id', scope⟩ : ScopeKey) ≠ row.1 := by
          intro heq
          exact hne ((congrArg ScopeKey.account heq).trans hrow.1)
        rw [if_pos hrow, beq_false_of_ne hkey]
      · rw [if_neg hrow]

/-- An account is discovered, and published, with the evidence for its checkpoints. -/
theorem discoverAccount_ends (hserver : server.Reorganizes)
    (hsound : world.Sound server packages steady) (hmember : account ∈ world.accounts)
    (hkey : account.transparentKey = some key)
    (hsteady : steady → ∀ scope checkpoint, world.load account.uuid scope = some checkpoint →
      Unreplaced server environment tip account.uuid scope checkpoint) :
    Ends (discoverAccount server packages environment tip (account.uuid, key)) world
      (fun _ world' => world'.Sound server packages steady ∧
        World.Spares account.uuid world world')
      fun _ world' => world'.Sound server packages steady := by
  unfold discoverAccount
  refine (hsound.ends (database_ends _)).bind fun _ world₁ hquiet₁ => ends_get_bind ?_
  have hsound₁ := hsound.quiet hquiet₁
  have hspares₁ : World.Spares account.uuid world world₁ :=
    ⟨hquiet₁.accounts, fun id' scope _ => by rw [hquiet₁.load]⟩
  split
  · exact ends_throw hsound₁
  · exact ends_pure ⟨hsound₁, hspares₁⟩
  · let Left (scopes : List KeyScope) (world' : World) : Prop :=
      scopes.Nodup ∧ world'.Sound server packages steady ∧ World.Spares account.uuid world world' ∧
        ∀ scope ∈ scopes, world'.load account.uuid scope = world.load account.uuid scope
    have hleft : Left [.external, .internal] world₁ :=
      ⟨by decide, hsound₁, hspares₁, fun scope _ => by rw [hquiet₁.load]⟩
    refine (Ends.forM (fun scope rest world₂ hleft₂ => ?_) hleft).bind fun _ world₂ hleft₂ => ?_
    · obtain ⟨hnodup, hsound₂, hspares₂, hloads⟩ := hleft₂
      rw [List.nodup_cons] at hnodup
      refine (discoverScope_ends hserver hsound₂ (hspares₂.accounts ▸ hmember) hkey ?_).mono ?_
        fun _ _ hstop => hstop
      · rw [hloads scope List.mem_cons_self]
        exact fun hs => hsteady hs scope
      · rintro _ world₃ ⟨hsound₃, hdiffers⟩
        refine ⟨hnodup.2, hsound₃, ⟨hdiffers.accounts.trans hspares₂.accounts, ?_⟩, ?_⟩
        · intro id' scope' hne
          rw [hdiffers.others id' scope' fun heq => hne (congrArg ScopeKey.account heq)]
          exact hspares₂.others id' scope' hne
        · intro scope' hscope'
          have hne : scope' ≠ scope := fun heq => hnodup.1 (heq ▸ hscope')
          rw [hdiffers.others _ scope' fun heq => hne (congrArg ScopeKey.scope heq)]
          exact hloads scope' (List.mem_cons_of_mem scope hscope')
    · obtain ⟨-, hsound₂, hspares₂, -⟩ := hleft₂
      have hconfirm : Ends ([KeyScope.external, .internal].forM
          (confirmScope server environment account.uuid)) world₂ (fun _ => world₂.Quiet)
          fun _ world' => world'.Sound server packages steady := by
        refine Ends.forM (I := fun _ => world₂.Quiet) (fun scope rest world₃ hquiet₃ => ?_)
          (.refl world₂)
        refine (confirmScope_ends (hsound₂.quiet hquiet₃) ?_ hkey).mono
          (fun _ _ => hquiet₃.trans) fun _ _ hstop => hstop
        rw [hquiet₃.accounts, hspares₂.accounts]
        exact hmember
      refine hconfirm.bind fun _ world₃ hquiet₃ => ?_
      refine ((hsound₂.quiet hquiet₃).ends (checkExit_ends _)).bind fun _ world₄ hquiet₄ => ?_
      replace hquiet₄ := hquiet₃.trans hquiet₄
      refine ((hsound₂.quiet hquiet₄).ends (database_ends _)).bind fun _ world₅ hquiet₅ => ?_
      replace hquiet₅ := hquiet₄.trans hquiet₅
      refine ends_modify ⟨(hsound₂.quiet hquiet₅).publish account.uuid, ?_, fun id' scope hne => ?_⟩
      · exact hquiet₅.accounts.trans hspares₂.accounts
      · rw [World.load_publish hne, hquiet₅.load]
        exact hspares₂.others id' scope hne

/-- No scan of a run resumes onto a block that was replaced. -/
def Steady (server : Server) (environment : Environment) (tip : ℕ) (world : World) : Prop :=
  ∀ id scope checkpoint, world.load id scope = some checkpoint →
    Unreplaced server environment tip id scope checkpoint

theorem ledgerAccounts_eq_ok {accounts : List Account} {keys : List (AccountUuid × TransparentKey)}
    (h : ledgerAccounts accounts = .ok keys) (hnodup : (accounts.map Account.uuid).Nodup) :
    (keys.map Prod.fst).Nodup ∧ ∀ pair ∈ keys, ∃ account ∈ accounts, account.uuid = pair.1 ∧
      account.transparentKey = some pair.2 := by
  have hall : List.Forall₂ (fun account pair => account.uuid = pair.1 ∧
      account.transparentKey = some pair.2)
      (accounts.filter (·.keySource = some keySourceLedger)) keys := by
    refine (mapM_eq_ok.1 h).imp fun account pair hpair => ?_
    split at hpair
    · cases hpair
    · next key hkey =>
      obtain rfl := Except.ok.inj hpair
      exact ⟨rfl, hkey⟩
  constructor
  · rw [map_eq_of_forall₂ hall fun account pair hrel => hrel.1.symm]
    exact hnodup.sublist (List.filter_sublist.map _)
  · intro pair hmem
    obtain ⟨account, haccount, hrel⟩ := exists_mem_left hall hmem
    exact ⟨account, (List.mem_filter.1 haccount).1, hrel⟩

/-- A pass keeps the checkpoints sound, however it ends. -/
theorem runWith_ends (hserver : server.Reorganizes) (hsound : world.Sound server packages steady)
    (hsteady : steady → Steady server environment tip world) :
    Ends (runWith server packages environment tip) world
      (fun _ world' => world'.Sound server packages steady)
      fun _ world' => world'.Sound server packages steady := by
  unfold runWith
  refine (hsound.ends (database_ends _)).bind fun _ world₁ hquiet₁ => ends_get_bind ?_
  have hsound₁ := hsound.quiet hquiet₁
  split
  · exact ends_throw hsound₁
  · next keys hkeys =>
    obtain ⟨hnodup, howners⟩ := ledgerAccounts_eq_ok hkeys hsound₁.uuids
    split
    · exact ends_pure hsound₁
    · refine (hsound₁.ends (checkExit_ends _)).bind fun _ world₂ hquiet₂ => ?_
      replace hquiet₂ := hquiet₁.trans hquiet₂
      refine ((hsound.quiet hquiet₂).ends (database_ends _)).bind fun _ world₃ hquiet₃ => ?_
      replace hquiet₃ := hquiet₂.trans hquiet₃
      refine ends_modify_bind ?_
      let Left (pairs : List (AccountUuid × TransparentKey)) (world' : World) : Prop :=
        (pairs.map Prod.fst).Nodup ∧ world'.Sound server packages steady ∧
          world'.accounts = world.accounts ∧ (∀ pair ∈ pairs, pair ∈ keys) ∧
          ∀ pair ∈ pairs, ∀ scope, world'.load pair.1 scope = world.load pair.1 scope
      have hleft : Left keys world₃.ensureTable := by
        refine ⟨hnodup, (hsound.quiet hquiet₃).ensureTable, hquiet₃.accounts, fun _ => id, ?_⟩
        intro pair _ scope
        rw [← hquiet₃.load]
        rfl
      refine (Ends.forM (fun pair rest world₄ hleft₄ => ?_) hleft).mono
        (fun _ _ hend => hend.2.1) fun _ _ hstop => hstop
      obtain ⟨hnodup₄, hsound₄, haccounts₄, hkeys₄, hloads₄⟩ := hleft₄
      obtain ⟨account, haccount, huuid, hkey⟩ := howners pair (hkeys₄ pair List.mem_cons_self)
      obtain ⟨uuid, key⟩ := pair
      obtain rfl : account.uuid = uuid := huuid
      rw [List.map_cons, List.nodup_cons] at hnodup₄
      refine (discoverAccount_ends hserver hsound₄ ?_ hkey fun hs scope => ?_).mono ?_
        fun _ _ hstop => hstop
      · rw [haccounts₄, ← hquiet₁.accounts]
        exact haccount
      · rw [hloads₄ _ List.mem_cons_self scope]
        exact hsteady hs account.uuid scope
      · rintro _ world₅ ⟨hsound₅, hspares⟩
        refine ⟨hnodup₄.2, hsound₅, hspares.accounts.trans haccounts₄, fun other hother =>
          hkeys₄ other (List.mem_cons_of_mem _ hother), fun other hother scope => ?_⟩
        have hne : other.1 ≠ account.uuid := by
          intro heq
          exact hnodup₄.1 (List.mem_map.2 ⟨other, hother, heq⟩)
        rw [hspares.others other.1 scope hne]
        exact hloads₄ other (List.mem_cons_of_mem _ hother) scope

end VizorWallet.Discovery
