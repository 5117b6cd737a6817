import VizorWallet.Keychain.Preserved
import VizorWallet.Library.Transition

/-!
# Runs of keychain migrations

The app stores and deletes items of a service once its migration is complete. Before that the
migration may fail at any access, the process may end there, and another run goes on from what the
keychain then holds. That a migration is complete may be forgotten.

## Main definitions

* `Event` — a migration with what happens at its accesses, or what the app does.
* `system` — the runs.

## Main results

* `nothing_lost` — items in reached states are what the app has stored.
* `complete_items` — so are the app's own items once the migration is complete.
* `migration_completes` — a migration in which no access fails completes, whatever was interrupted
  before.
-/

namespace VizorWallet.Keychain

open Effect

variable {Account Attributes : Type} [LinearOrder Account] {accessGroup : Attributes → String}
  {d d' : Device Account Attributes} {service other : String} {account : Account}
  {item : Item Account Attributes}

/-! ## One account -/

/-- A copy of the item is added where it belongs, before the staged copy is deleted. -/
theorem restore_spec (h : d.Preserves service) (habsent : Absent (d.items service) item.account)
    (hsaved : d.saved service item.account = some item.content)
    (hcopy : ¬ Absent (d.items (stagingService service)) item.account) :
    always (do
        add accessGroup item service
        verify item service
        delete (stagingService service) item.account
        return true)
      (fun _ d' => Kept service [item.account] d d' ∧ d'.Settled service item.account)
      (fun _ d' => Kept service [item.account] d d') d := by
  have hadded : (d.insert service item.forThisDevice).Preserves service :=
    h.insert_canonical habsent hsaved rfl
  have hframe : Frame service [item.account] d (d.insert service item.forThisDevice) :=
    frame_insert (.inl rfl) rfl
  have hthere : ¬ Absent ((d.insert service item.forThisDevice).items service) item.account := by
    intro hnone
    exact hnone item.forThisDevice (by simp) rfl
  have hremoved := hadded.remove_staged hthere
  have hframe' : Frame service [item.account] d
      ((d.insert service item.forThisDevice).remove (stagingService service) item.account) :=
    hframe.trans (frame_remove (.inr rfl))
  refine always_then (add_spec habsent) (fun _ d₁ h₁ => ?_) fun _ d₁ h₁ => ?_
  · subst h₁
    refine always_then (verify_spec item service) (fun _ d₂ h₂ => ?_)
      fun _ d₂ h₂ => h₂ ▸ ⟨hadded, hframe⟩
    subst h₂
    refine always_then (delete_spec item.account) (fun _ d₃ h₃ => always_pure ?_) fun _ d₃ h₃ => ?_
    · subst h₃
      refine ⟨⟨hremoved, hframe'⟩, Device.absent_remove _ _, fun item' hitem' haccount => ?_⟩
      rw [Device.items_remove_of_ne (stagingService_ne service).symm, Device.items_insert] at hitem'
      obtain rfl | hitem' := List.mem_cons.1 hitem'
      · rfl
      · exact absurd haccount (habsent item' hitem')
    · obtain rfl | rfl := h₃
      · exact ⟨hadded, hframe⟩
      · exact ⟨hremoved, hframe'⟩
  · obtain rfl | rfl := h₁
    · exact ⟨h, Frame.refl ..⟩
    · exact ⟨hadded, hframe⟩

/-- There is a staged copy before the item is deleted. -/
theorem stage_spec {staged : Option (Item Account Attributes)} (h : d.Preserves service)
    (hincomplete : ¬ d.isComplete service) (hitem : item ∈ d.items service)
    (hstaged : Indexed (d.items (stagingService service)) item.account staged) :
    always (stage accessGroup item staged service)
      (fun _ d' => Kept service [item.account] d d' ∧
        ¬ Absent (d'.items (stagingService service)) item.account)
      (fun _ d' => Kept service [item.account] d d') d := by
  have hrefl := Kept.refl h [item.account]
  cases staged with
  | some staged =>
    obtain ⟨hmem, haccount⟩ := hstaged.mem
    refine always_mono ?_ ?_ (requireMatchingData_spec item staged)
    · rintro _ d' rfl
      exact ⟨hrefl, fun hnone => hnone staged hmem haccount⟩
    · rintro _ d' rfl
      exact hrefl
  | none =>
    have hadded : Kept service [item.account] d
        (d.insert (stagingService service) item.forThisDevice) :=
      ⟨h.insert_staged hincomplete hstaged.absent
        (h.stored item (List.mem_append_left _ hitem)) rfl, frame_insert (.inr rfl) rfl⟩
    refine always_then (add_spec hstaged.absent) (fun _ d' h' => ?_) fun _ d' h' => ?_
    · subst h'
      refine always_mono ?_ ?_ (verify_spec item (stagingService service))
      · rintro _ d' rfl
        exact ⟨hadded, fun hnone => hnone item.forThisDevice (by simp) rfl⟩
      · rintro _ d' rfl
        exact hadded
    · obtain rfl | rfl := h'
      · exact hrefl
      · exact hadded

/-- A copy of an item that is where it belongs is what an interrupted migration has left. -/
theorem discard_spec {staged : Option (Item Account Attributes)} (h : d.Preserves service)
    (hitem : item ∈ d.items service)
    (hcanonical : Indexed (d.items service) item.account (some item))
    (htarget : item.accessibility = keychainAccessibilityTarget)
    (hstaged : Indexed (d.items (stagingService service)) item.account staged) :
    always (staged.forM fun staged => do
        requireMatchingData item staged
        delete (stagingService service) item.account)
      (fun _ d' => Kept service [item.account] d d' ∧ d'.Settled service item.account)
      (fun _ d' => Kept service [item.account] d d') d := by
  have hrefl := Kept.refl h [item.account]
  have hsettled : ∀ item' ∈ d.items service, item'.account = item.account →
      item'.accessibility = keychainAccessibilityTarget := fun item' hitem' heq => by
    obtain rfl := Option.some.inj ((hcanonical item').2 ⟨hitem', heq⟩)
    exact htarget
  cases staged with
  | none => exact always_pure ⟨hrefl, hstaged.absent, hsettled⟩
  | some staged =>
    have hremoved : Kept service [item.account] d
        (d.remove (stagingService service) item.account) :=
      ⟨h.remove_staged fun hnone => hnone item hitem rfl, frame_remove (.inr rfl)⟩
    refine always_then (requireMatchingData_spec item staged) (fun _ d₁ h₁ => ?_) ?_
    · obtain rfl := h₁.symm
      refine always_mono ?_ ?_ (delete_spec item.account)
      · rintro _ d' rfl
        refine ⟨hremoved, Device.absent_remove _ _, fun item' hitem' heq => ?_⟩
        rw [Device.items_remove_of_ne (stagingService_ne service).symm] at hitem'
        exact hsettled item' hitem' heq
      · rintro _ d' (rfl | rfl)
        · exact hrefl
        · exact hremoved
    · rintro _ d' rfl
      exact hrefl

/-- The migration of an account keeps what is stored, and leaves nothing of the account to do. -/
theorem migrate_spec {canonical staged : Option (Item Account Attributes)}
    (h : d.Preserves service) (hincomplete : ¬ d.isComplete service)
    (hcanonical : Indexed (d.items service) account canonical)
    (hstaged : Indexed (d.items (stagingService service)) account staged) :
    always (migrate accessGroup account canonical staged service)
      (fun _ d' => Kept service [account] d d' ∧ d'.Settled service account)
      (fun _ d' => Kept service [account] d d') d := by
  have hrefl := Kept.refl h [account]
  have htargets : always (staged.forM requireTarget : Eff Account Attributes Unit)
      (fun _ d' => d' = d) (fun _ d' => d' = d) d := by
    cases staged with
    | none => exact always_pure rfl
    | some staged => exact always_require (fun _ => rfl) fun _ => rfl
  refine always_then htargets (fun _ d₁ h₁ => ?_) fun _ d₁ h₁ => h₁ ▸ hrefl
  obtain rfl := h₁.symm
  cases canonical with
  | none =>
    cases staged with
    | none =>
      refine always_pure ⟨hrefl, hstaged.absent, fun item hitem heq => ?_⟩
      exact absurd heq (hcanonical.absent item hitem)
    | some staged =>
      obtain ⟨hmem, rfl⟩ := hstaged.mem
      exact restore_spec h hcanonical.absent (h.stored staged (List.mem_append_right _ hmem))
        fun hnone => hnone staged hmem rfl
  | some canonical =>
    obtain ⟨hmem, rfl⟩ := hcanonical.mem
    dsimp only
    split_ifs with htarget
    · refine always_then (discard_spec h hmem hcanonical htarget hstaged)
        (fun _ d' h' => always_pure h') fun _ d' h' => h'
    · refine always_bind (always_require (fun _ => ?_) fun _ => hrefl)
      refine always_then (stage_spec h hincomplete hmem hstaged) (fun _ d₁ h₁ => ?_)
        fun _ _ h₁ => h₁
      obtain ⟨hkept, hcopy⟩ := h₁
      have hremoved : Kept service [canonical.account] d
          (d₁.remove service canonical.account) :=
        hkept.trans ⟨hkept.preserves.remove_canonical hcopy, frame_remove (.inl rfl)⟩
      refine always_then (delete_spec canonical.account) (fun _ d₂ h₂ => ?_) ?_
      · subst h₂
        refine always_mono (fun _ d' h' => ⟨hremoved.trans h'.1, h'.2⟩)
          (fun _ d' h' => hremoved.trans h')
          (restore_spec hremoved.preserves (Device.absent_remove _ _) ?_ ?_)
        · rw [hremoved.frame.saved]
          exact h.stored canonical (List.mem_append_left _ hmem)
        · rwa [Device.items_remove_of_ne (stagingService_ne service)]
      · rintro _ d' (rfl | rfl)
        · exact hkept
        · exact hremoved

/-! ## One account, when nothing fails -/

theorem restore_calm (h : d.Preserves service) (habsent : Absent (d.items service) item.account)
    (hsaved : d.saved service item.account = some item.content) :
    calmly (do
        add accessGroup item service
        verify item service
        delete (stagingService service) item.account
        return true) (fun _ _ => True) d := by
  refine calmly_bind (calmly_mono (fun _ d₁ h₁ => ?_) (add_calm habsent))
  subst h₁
  have hadded : (d.insert service item.forThisDevice).Preserves service :=
    h.insert_canonical habsent hsaved rfl
  refine calmly_bind (calmly_mono (fun _ d₂ h₂ => ?_)
    (verify_calm item.forThisDevice hadded.canonical (by simp) rfl rfl rfl))
  exact calmly_bind (calmly_mono (fun _ _ _ => calmly_pure trivial) (delete_calm item.account))

theorem stage_calm {staged : Option (Item Account Attributes)} (h : d.Preserves service)
    (hincomplete : ¬ d.isComplete service) (hitem : item ∈ d.items service)
    (hstaged : Indexed (d.items (stagingService service)) item.account staged) :
    calmly (stage accessGroup item staged service) (fun _ _ => True) d := by
  cases staged with
  | some staged =>
    obtain ⟨hmem, haccount⟩ := hstaged.mem
    exact calmly_mono (fun _ _ _ => trivial) (requireMatchingData_calm h hitem hmem haccount)
  | none =>
    refine calmly_bind (calmly_mono (fun _ d₁ h₁ => ?_) (add_calm hstaged.absent))
    subst h₁
    have hadded : (d.insert (stagingService service) item.forThisDevice).Preserves service :=
      h.insert_staged hincomplete hstaged.absent (h.stored item (List.mem_append_left _ hitem)) rfl
    exact calmly_mono (fun _ _ _ => trivial)
      (verify_calm item.forThisDevice hadded.staged (by simp) rfl rfl rfl)

theorem migrate_calm {canonical staged : Option (Item Account Attributes)}
    (h : d.Preserves service) (hincomplete : ¬ d.isComplete service)
    (hcanonical : Indexed (d.items service) account canonical)
    (hstaged : Indexed (d.items (stagingService service)) account staged)
    (hexpected : ∀ item ∈ d.items service, item.accessibility = keychainAccessibilityTarget ∨
      item.accessibility = keychainAccessibilityLegacy) :
    calmly (migrate accessGroup account canonical staged service) (fun _ _ => True) d := by
  have htargets : calmly (staged.forM requireTarget : Eff Account Attributes Unit)
      (fun _ d' => d' = d) d := by
    cases staged with
    | none => exact calmly_pure rfl
    | some staged => exact calmly_require (h.target staged hstaged.mem.1) rfl
  refine calmly_bind (calmly_mono (fun _ d₁ h₁ => ?_) htargets)
  obtain rfl := h₁.symm
  cases canonical with
  | none =>
    cases staged with
    | none => exact calmly_pure trivial
    | some staged =>
      obtain ⟨hmem, rfl⟩ := hstaged.mem
      exact restore_calm h hcanonical.absent (h.stored staged (List.mem_append_right _ hmem))
  | some canonical =>
    obtain ⟨hmem, rfl⟩ := hcanonical.mem
    dsimp only
    split_ifs with htarget
    · cases staged with
      | none => exact calmly_bind (calmly_pure (calmly_pure trivial))
      | some staged =>
        obtain ⟨hmem', haccount⟩ := hstaged.mem
        refine calmly_bind (calmly_bind (calmly_mono (fun _ d₁ h₁ => ?_)
          (requireMatchingData_calm h hmem hmem' haccount)))
        exact calmly_mono (fun _ _ _ => calmly_pure trivial) (delete_calm canonical.account)
    · refine calmly_bind (calmly_require ((hexpected canonical hmem).resolve_left htarget) ?_)
      refine calmly_bind (calmly_mono (fun _ d₁ h₁ => ?_)
        (calmly_and (stage_spec h hincomplete hmem hstaged)
          (stage_calm h hincomplete hmem hstaged)))
      obtain ⟨⟨hkept, hcopy⟩, -⟩ := h₁
      refine calmly_bind (calmly_mono (fun _ d₂ h₂ => ?_) (delete_calm canonical.account))
      subst h₂
      refine restore_calm (hkept.preserves.remove_canonical hcopy) (Device.absent_remove _ _) ?_
      rw [Device.saved_remove, hkept.frame.saved]
      exact h.stored canonical (List.mem_append_left _ hmem)

/-! ## A service -/

section Service

variable {canonical staged : List (Account × Item Account Attributes)} {accounts : List Account}

/-- The indices of a migration agree with the keychain on the accounts that are left to migrate. -/
structure Agrees (service : String) (canonical staged : List (Account × Item Account Attributes))
    (accounts : List Account) (d : Device Account Attributes) : Prop where
  canonical : ∀ account ∈ accounts, Indexed (d.items service) account (canonical.lookup account)
  staged : ∀ account ∈ accounts,
    Indexed (d.items (stagingService service)) account (staged.lookup account)

theorem Agrees.next (h : Agrees service canonical staged (account :: accounts) d)
    (hframe : Frame service [account] d d') (hnew : account ∉ accounts) :
    Agrees service canonical staged accounts d' := by
  have hother : ∀ account' ∈ accounts, account' ∉ [account] := fun account' haccount hsame =>
    hnew (List.mem_singleton.1 hsame ▸ haccount)
  exact ⟨fun account' haccount => hframe.indexed (hother account' haccount)
      (h.canonical account' (List.mem_cons_of_mem _ haccount)),
    fun account' haccount => hframe.indexed (hother account' haccount)
      (h.staged account' (List.mem_cons_of_mem _ haccount))⟩

theorem migrateAccounts_spec (hnodup : accounts.Nodup) (h : d.Preserves service)
    (hincomplete : ¬ d.isComplete service) (hagrees : Agrees service canonical staged accounts d)
    (migratedCount : ℕ) :
    always (migrateAccounts accessGroup canonical staged service accounts migratedCount)
      (fun _ d' => Kept service accounts d d' ∧
        ∀ account ∈ accounts, d'.Settled service account)
      (fun _ d' => Kept service accounts d d') d := by
  induction accounts generalizing d migratedCount with
  | nil => exact always_pure ⟨Kept.refl h [], by simp⟩
  | cons account accounts ih =>
    obtain ⟨hnew, hnodup⟩ := List.nodup_cons.1 hnodup
    have hfirst : ∀ d', Kept service [account] d d' → Kept service (account :: accounts) d d' :=
      fun d' h' => h'.mono (by simp)
    refine always_then (migrate_spec h hincomplete (hagrees.canonical account List.mem_cons_self)
      (hagrees.staged account List.mem_cons_self)) (fun _ d₁ h₁ => ?_) fun _ d₁ h₁ => hfirst d₁ h₁
    obtain ⟨hkept, hsettled⟩ := h₁
    refine always_mono (fun _ d₂ h₂ => ?_) (fun _ d₂ h₂ => ?_) (ih hnodup hkept.preserves
      (by rwa [hkept.frame.isComplete]) (hagrees.next hkept.frame hnew) _)
    · obtain ⟨hkept', hsettled'⟩ := h₂
      refine ⟨(hfirst d₁ hkept).trans (hkept'.mono fun _ => List.mem_cons_of_mem _), ?_⟩
      exact List.forall_mem_cons.2 ⟨hkept'.frame.settled hnew hsettled, hsettled'⟩
    · exact (hfirst d₁ hkept).trans (h₂.mono fun _ => List.mem_cons_of_mem _)

theorem migrateAccounts_calm (hnodup : accounts.Nodup) (h : d.Preserves service)
    (hincomplete : ¬ d.isComplete service) (hagrees : Agrees service canonical staged accounts d)
    (hexpected : ∀ item ∈ d.items service, item.accessibility = keychainAccessibilityTarget ∨
      item.accessibility = keychainAccessibilityLegacy) (migratedCount : ℕ) :
    calmly (migrateAccounts accessGroup canonical staged service accounts migratedCount)
      (fun _ _ => True) d := by
  induction accounts generalizing d migratedCount with
  | nil => exact calmly_pure trivial
  | cons account accounts ih =>
    obtain ⟨hnew, hnodup⟩ := List.nodup_cons.1 hnodup
    have hcanonical := hagrees.canonical account List.mem_cons_self
    have hstaged := hagrees.staged account List.mem_cons_self
    refine calmly_bind (calmly_mono (fun _ d₁ h₁ => ?_)
      (calmly_and (migrate_spec h hincomplete hcanonical hstaged)
        (migrate_calm h hincomplete hcanonical hstaged hexpected)))
    obtain ⟨⟨hkept, hsettled⟩, -⟩ := h₁
    refine ih hnodup hkept.preserves (by rwa [hkept.frame.isComplete])
      (hagrees.next hkept.frame hnew) (fun item hitem => ?_) _
    by_cases haccount : item.account = account
    · exact .inl (hsettled.target item hitem haccount)
    · refine hexpected item ((hkept.frame.others service item ?_).1 hitem)
      simpa using haccount

/-- The accounts of a migration, in order. -/
theorem indexed_accounts (hcanonical : indexedItems (d.items service) [] = .ok canonical)
    (hstaged : indexedItems (d.items (stagingService service)) [] = .ok staged)
    (haccounts : accounts = ((canonical ++ staged).map Prod.fst).dedup.insertionSort (· ≤ ·)) :
    accounts.Nodup ∧ Agrees service canonical staged accounts d ∧
      ∀ item ∈ d.items service ++ d.items (stagingService service), item.account ∈ accounts := by
  have hcanonical' := indexedItems_eq_ok hcanonical
  have hstaged' := indexedItems_eq_ok hstaged
  simp only [List.lookup_nil, reduceCtorEq, or_false] at hcanonical' hstaged'
  subst haccounts
  refine ⟨(List.perm_insertionSort _ _).nodup_iff.2 (List.nodup_dedup _),
    ⟨fun account _ => hcanonical' account, fun account _ => hstaged' account⟩, fun item hitem => ?_⟩
  rw [List.mem_insertionSort, List.mem_dedup]
  obtain hitem | hitem := List.mem_append.1 hitem
  · have hmem := mem_of_lookup_eq_some ((hcanonical' item.account item).2 ⟨hitem, rfl⟩)
    exact List.mem_map.2 ⟨_, List.mem_append_left _ hmem, rfl⟩
  · have hmem := mem_of_lookup_eq_some ((hstaged' item.account item).2 ⟨hitem, rfl⟩)
    exact List.mem_map.2 ⟨_, List.mem_append_right _ hmem, rfl⟩

/-- Items that a migration of all accounts has kept are settled. -/
theorem settled_all (hkept : Kept service accounts d d')
    (hall : ∀ item ∈ d.items service ++ d.items (stagingService service), item.account ∈ accounts)
    (hsettled : ∀ account ∈ accounts, d'.Settled service account) :
    ∀ item ∈ d'.items service ++ d'.items (stagingService service),
      d'.Settled service item.account := by
  intro item hitem
  refine hsettled item.account ?_
  by_contra hnew
  refine hnew (hall item ?_)
  rw [List.mem_append, hkept.frame.others service item hnew,
    hkept.frame.others (stagingService service) item hnew] at hitem
  exact List.mem_append.2 hitem

theorem ensureFirstUnlockThisDeviceOnly_spec (h : d.Preserves service) :
    always (ensureFirstUnlockThisDeviceOnly accessGroup service)
      (fun _ d' => Migrating service d d' ∧ d'.isComplete service)
      (fun _ d' => Migrating service d d') d := by
  have hrefl := (Kept.refl h []).migrating
  refine always_bind (always_require (fun _ => ?_) fun _ => hrefl)
  refine always_bind (always_device ?_)
  dsimp only
  split_ifs with hcomplete
  · exact always_pure ⟨hrefl, hcomplete⟩
  refine always_then (items_spec service) (fun _ d₁ h₁ => ?_) fun _ d₁ h₁ => h₁ ▸ hrefl
  obtain ⟨rfl, rfl⟩ := h₁
  refine always_bind (always_outcome (fun canonical hcanonical => ?_) fun _ _ => hrefl)
  refine always_then (items_spec (stagingService service)) (fun _ d₂ h₂ => ?_)
    fun _ d₂ h₂ => h₂ ▸ hrefl
  obtain ⟨rfl, rfl⟩ := h₂
  refine always_bind (always_outcome (fun staged hstaged => ?_) fun _ _ => hrefl)
  obtain ⟨hnodup, hagrees, hall⟩ := indexed_accounts (mapError_eq_ok.1 hcanonical)
    (mapError_eq_ok.1 hstaged) rfl
  refine always_then (migrateAccounts_spec hnodup h hcomplete hagrees 0) (fun _ d₃ h₃ => ?_)
    fun _ d₃ h₃ => h₃.migrating
  obtain ⟨hkept, hsettled⟩ := h₃
  have hpreserves := hkept.preserves.markComplete (settled_all hkept hall hsettled)
  refine always_bind (always_change (always_pure ⟨hkept.migrating.markComplete hpreserves, ?_⟩))
  exact Function.update_self ..

theorem indexedItems_of_nodup {items : List (Item Account Attributes)}
    {result : List (Account × Item Account Attributes)} (hnodup : (items.map Item.account).Nodup)
    (hnew : ∀ item ∈ items, result.lookup item.account = none) :
    ∃ index, indexedItems items result = .ok index := by
  induction items generalizing result with
  | nil => exact ⟨result, rfl⟩
  | cons first items ih =>
    obtain ⟨hfirst, hnodup⟩ := List.nodup_cons.1 hnodup
    obtain ⟨hnone, hnew⟩ := List.forall_mem_cons.1 hnew
    rw [indexedItems, if_neg (by simp [hnone])]
    refine ih hnodup fun item hitem => ?_
    have hne : item.account ≠ first.account := fun heq => hfirst (heq ▸ List.mem_map_of_mem hitem)
    rw [lookup_insertKey, if_neg hne]
    exact hnew item hitem

theorem ensureFirstUnlockThisDeviceOnly_calm (h : d.Preserves service)
    (hservice : service ∈ keychainAccessibilityMigrationAllowedServices)
    (hexpected : ∀ item ∈ d.items service, item.accessibility = keychainAccessibilityTarget ∨
      item.accessibility = keychainAccessibilityLegacy) :
    calmly (ensureFirstUnlockThisDeviceOnly accessGroup service) (fun _ _ => True) d := by
  refine calmly_bind (calmly_require hservice (calmly_bind (calmly_device ?_)))
  dsimp only
  split_ifs with hcomplete
  · exact calmly_pure trivial
  have hindexed : ∀ items : List (Item Account Attributes), (items.map Item.account).Nodup →
      ∃ index, indexedItems items [] = .ok index := fun items hnodup =>
    indexedItems_of_nodup hnodup (by simp)
  obtain ⟨canonical, hcanonical⟩ := hindexed _ h.canonical
  obtain ⟨staged, hstaged⟩ := hindexed _ h.staged
  obtain ⟨hnodup, hagrees, -⟩ := indexed_accounts hcanonical hstaged rfl
  refine calmly_bind (calmly_mono (fun _ d₁ h₁ => ?_) (items_calm service))
  obtain ⟨rfl, rfl⟩ := h₁
  refine calmly_bind (calmly_outcome (mapError_eq_ok.2 hcanonical) ?_)
  refine calmly_bind (calmly_mono (fun _ d₂ h₂ => ?_) (items_calm (stagingService service)))
  obtain ⟨rfl, rfl⟩ := h₂
  refine calmly_bind (calmly_outcome (mapError_eq_ok.2 hstaged) ?_)
  refine calmly_bind (calmly_mono (fun _ d₃ _ => ?_)
    (migrateAccounts_calm hnodup h hcomplete hagrees hexpected 0))
  exact calmly_bind (calmly_change (calmly_pure trivial))

end Service

/-! ## Runs -/

/-- Store a value, or delete it. -/
def Device.store (d : Device Account Attributes) (service : String) (account : Account)
    (value : Option (Bytes × Attributes)) : Device Account Attributes :=
  let added := value.toList.map fun content =>
    ⟨account, content.1, keychainAccessibilityTarget, content.2⟩
  let kept := (d.items service).filter (·.account ≠ account)
  { d with
    items := Function.update d.items service (added ++ kept)
    saved := Function.update d.saved service (Function.update (d.saved service) account value) }

/-- What the app does, and what happens to it. -/
inductive Event (Account Attributes : Type)
  | migrate (service : String) (script : List (Option (Fault Empty)))
  | store (service : String) (account : Account) (value : Option (Bytes × Attributes))
  /-- User defaults that had not been written yet are lost. -/
  | forget (service : String)

/-- The app uses the store of a service once its migration is complete. -/
def step (accessGroup : Attributes → String) (d : Device Account Attributes) :
    Event Account Attributes → Option (Device Account Attributes)
  | .migrate service script =>
    some ((ensureFirstUnlockThisDeviceOnly accessGroup service).run.run ⟨d, script⟩).2.device
  | .store service account value =>
    if service ∈ keychainAccessibilityMigrationAllowedServices ∧ d.isComplete service then
      some (d.store service account value)
    else none
  | .forget service => some { d with isComplete := Function.update d.isComplete service false }

/-- A device with the items of an earlier version of the app. -/
def installed (stored : String → List (Item Account Attributes)) : Device Account Attributes where
  items service := if service ∈ keychainAccessibilityMigrationAllowedServices then stored service
    else []
  isComplete _ := false
  saved service account := ((stored service).find? (·.account = account)).map Item.content

def system (accessGroup : Attributes → String)
    (stored : String → List (Item Account Attributes)) :
    Transition (Device Account Attributes) (Event Account Attributes) where
  init := installed stored
  step := step accessGroup

variable {stored : String → List (Item Account Attributes)} {content : Bytes × Attributes}

theorem Device.Preserves.store (h : d.Preserves service) (hcomplete : d.isComplete service)
    (account : Account) (value : Option (Bytes × Attributes)) :
    (d.store service account value).Preserves service := by
  obtain ⟨hnone, htarget⟩ := h.complete hcomplete
  have hitems : (d.store service account value).items service =
      value.toList.map (fun content =>
        ⟨account, content.1, keychainAccessibilityTarget, content.2⟩) ++
      (d.items service).filter (·.account ≠ account) := Function.update_self ..
  have hstaged : (d.store service account value).items (stagingService service) = [] := by
    rw [← hnone]
    exact Function.update_of_ne (stagingService_ne service) ..
  have hsaved : (d.store service account value).saved service =
      Function.update (d.saved service) account value := Function.update_self ..
  have hkept : ∀ item ∈ (d.items service).filter (·.account ≠ account),
      item ∈ d.items service ∧ item.account ≠ account := by simp
  constructor
  · rw [hitems, List.map_append]
    refine List.Nodup.append ?_ (h.canonical.sublist (List.filter_sublist.map _)) ?_
    · cases value <;> simp
    · intro account' hadded hrest
      obtain ⟨item, hitem, rfl⟩ := List.mem_map.1 hrest
      have hne := (hkept item hitem).2
      cases value <;> simp_all
  · simp [hstaged]
  · intro item hitem
    rw [hstaged, List.append_nil, hitems] at hitem
    rw [hsaved]
    obtain hadded | hrest := List.mem_append.1 hitem
    · obtain ⟨content, hcontent, rfl⟩ := List.mem_map.1 hadded
      rw [Function.update_self]
      exact Option.mem_toList.1 hcontent
    · obtain ⟨hitem, hne⟩ := hkept item hrest
      rw [Function.update_of_ne hne]
      exact h.stored item (List.mem_append_left _ hitem)
  · simp [hstaged]
  · intro account' content hcontent habsent
    rw [hstaged, List.append_nil, hitems] at habsent
    rw [hsaved] at hcontent
    by_cases heq : account' = account
    · subst heq
      rw [Function.update_self] at hcontent
      subst hcontent
      exact habsent _ (List.mem_append_left _ List.mem_cons_self) rfl
    · rw [Function.update_of_ne heq] at hcontent
      refine h.kept account' content hcontent fun item hitem haccount => ?_
      rw [hnone, List.append_nil] at hitem
      refine habsent item (List.mem_append_right _ (List.mem_filter.2 ⟨hitem, ?_⟩)) haccount
      simpa [haccount] using heq
  · refine fun _ => ⟨hstaged, fun item hitem => ?_⟩
    rw [hitems] at hitem
    obtain hadded | hrest := List.mem_append.1 hitem
    · obtain ⟨content, -, rfl⟩ := List.mem_map.1 hadded
      rfl
    · exact htarget item (hkept item hrest).1

theorem Device.Safe.store (h : d.Safe)
    (hservice : service ∈ keychainAccessibilityMigrationAllowedServices)
    (hcomplete : d.isComplete service) (account : Account) (value : Option (Bytes × Attributes)) :
    (d.store service account value).Safe :=
  h.elsewhere hservice ((h service hservice).store hcomplete account value)
    ⟨fun _ hother _ => Function.update_of_ne hother .., fun _ hother =>
      Function.update_of_ne hother .., fun _ _ => rfl⟩

theorem Device.Safe.migrate (h : d.Safe) (service : String) :
    always (ensureFirstUnlockThisDeviceOnly accessGroup service) (fun _ d' => d'.Safe)
      (fun _ d' => d'.Safe) d := by
  by_cases hservice : service ∈ keychainAccessibilityMigrationAllowedServices
  · exact always_mono (fun _ d' h' => h.elsewhere hservice h'.1.preserves h'.1.elsewhere)
      (fun _ d' h' => h.elsewhere hservice h'.preserves h'.elsewhere)
      (ensureFirstUnlockThisDeviceOnly_spec (h service hservice))
  · exact always_bind (always_require (fun hin => absurd hin hservice) fun _ => h)

theorem Device.Safe.step {e : Event Account Attributes} (h : d.Safe)
    (hstep : Keychain.step accessGroup d e = some d') : d'.Safe := by
  cases e with
  | migrate service script =>
    obtain rfl := Option.some.inj hstep
    exact always_run (h.migrate service) script
  | store service account value =>
    simp only [Keychain.step, Option.ite_none_right_eq_some, Option.some.injEq] at hstep
    obtain ⟨⟨hservice, hcomplete⟩, rfl⟩ := hstep
    exact h.store hservice hcomplete account value
  | forget service =>
    obtain rfl := Option.some.inj hstep
    intro other hother
    refine (h other hother).congr rfl rfl rfl fun hdone => ?_
    by_cases heq : other = service
    · subst heq
      simp at hdone
    · have hsame : Function.update d.isComplete service false other = d.isComplete other :=
        Function.update_of_ne heq ..
      exact hsame ▸ hdone

theorem safe_installed (hnodup : ∀ service ∈ keychainAccessibilityMigrationAllowedServices,
    ((stored service).map Item.account).Nodup) : (installed stored).Safe := by
  intro service hservice
  have hitems : (installed stored).items service = stored service := if_pos hservice
  have hstaged : (installed stored).items (stagingService service) = [] :=
    if_neg fun hin => stagingService_ne_allowed service hservice _ hin rfl
  constructor
  · rw [hitems]
    exact hnodup service hservice
  · simp [hstaged]
  · intro item hitem
    rw [hstaged, List.append_nil, hitems] at hitem
    have hfind : (stored service).find? (·.account = item.account) = some item := by
      rw [← List.head?_filter, filter_account (hnodup service hservice) hitem]
      rfl
    exact congrArg (Option.map Item.content) hfind
  · simp [hstaged]
  · intro account content hcontent habsent
    rw [hstaged, List.append_nil, hitems] at habsent
    obtain ⟨item, hitem, rfl⟩ := Option.map_eq_some_iff.1 hcontent
    exact habsent item (List.mem_of_find?_eq_some hitem) (by simpa using List.find?_some hitem)
  · exact fun hdone => by cases hdone

/-- Reached devices have lost nothing. -/
theorem safe_reached (hnodup : ∀ service ∈ keychainAccessibilityMigrationAllowedServices,
      ((stored service).map Item.account).Nodup)
    (h : (system accessGroup stored).Reachable d) : d.Safe :=
  h.invariant (safe_installed hnodup) fun _ _ _ hsafe _ hstep => hsafe.step hstep

/-! ## A migration that ends between the deletion of an item and its return -/

section Sample

def sampleService : String := "com.keplr.vizor.secure_store"

def sampleStored (service : String) : List (Item ℕ Unit) :=
  if service = sampleService then
    [⟨1, [7], keychainAccessibilityLegacy, ()⟩, ⟨2, [8], keychainAccessibilityLegacy, ()⟩]
  else []

def sampleSystem : Transition (Device ℕ Unit) (Event ℕ Unit) := system (fun _ => "") sampleStored

theorem sampleStored_nodup : ∀ service ∈ keychainAccessibilityMigrationAllowedServices,
    ((sampleStored service).map Item.account).Nodup := by
  decide

theorem exists_interrupted : ∃ d, sampleSystem.Reachable d ∧
    (d.items sampleService).map Item.account = [2] ∧ d.saved sampleService 1 = some ([7], ()) ∧
    ∀ item ∈ d.items sampleService, item.accessibility = keychainAccessibilityLegacy := by
  obtain ⟨d, hd, hp⟩ := sampleSystem.exists_reachable
    [.migrate sampleService [none, none, none, none, none, some (.killed false)]]
    (fun d => (d.items sampleService).map Item.account = [2] ∧
      d.saved sampleService 1 = some ([7], ()) ∧
      ∀ item ∈ d.items sampleService, item.accessibility = keychainAccessibilityLegacy)
    (by decide)
  exact ⟨d, hd, of_decide_eq_true hp⟩

theorem exists_complete : ∃ d, sampleSystem.Reachable d ∧ d.isComplete sampleService ∧
    d.saved sampleService 1 = some ([7], ()) ∧ d.saved sampleService 2 = some ([9], ()) := by
  obtain ⟨d, hd, hp⟩ := sampleSystem.exists_reachable
    [.migrate sampleService [none, none, none, none, none, some (.killed false)],
      .migrate sampleService [], .store sampleService 2 (some ([9], ()))]
    (fun d => d.isComplete sampleService ∧ d.saved sampleService 1 = some ([7], ()) ∧
      d.saved sampleService 2 = some ([9], ()))
    (by decide)
  exact ⟨d, hd, of_decide_eq_true hp⟩

end Sample

/-! ## Results -/

/-- What the app has stored is in the keychain, and the keychain has nothing else. -/
theorem nothing_lost (hnodup : ∀ service ∈ keychainAccessibilityMigrationAllowedServices,
      ((stored service).map Item.account).Nodup)
    (h : (system accessGroup stored).Reachable d)
    (hservice : service ∈ keychainAccessibilityMigrationAllowedServices) (account : Account)
    (content : Bytes × Attributes) : d.saved service account = some content ↔
      ∃ item ∈ d.items service ++ d.items (stagingService service),
        item.account = account ∧ item.content = content :=
  (safe_reached hnodup h service hservice).saved_iff account content

theorem nothing_lost_sample : ∃ d, sampleSystem.Reachable d ∧
    (d.items sampleService).map Item.account = [2] ∧
    ∃ item ∈ d.items sampleService ++ d.items (stagingService sampleService),
      item.account = 1 ∧ item.content = ([7], ()) := by
  obtain ⟨d, hd, haccounts, hsaved, -⟩ := exists_interrupted
  exact ⟨d, hd, haccounts, (nothing_lost sampleStored_nodup hd (by decide) 1 ([7], ())).1 hsaved⟩

/-- Once the migration of a service is complete, its items are what the app has stored, each once
and for this device only, and no copies are left. -/
theorem complete_items (hnodup : ∀ service ∈ keychainAccessibilityMigrationAllowedServices,
      ((stored service).map Item.account).Nodup)
    (h : (system accessGroup stored).Reachable d)
    (hservice : service ∈ keychainAccessibilityMigrationAllowedServices)
    (hcomplete : d.isComplete service) :
    d.items (stagingService service) = [] ∧ ((d.items service).map Item.account).Nodup ∧
      ∀ account content, d.saved service account = some content ↔
        ∃ item ∈ d.items service, item.account = account ∧ item.content = content ∧
          item.accessibility = keychainAccessibilityTarget := by
  have hpreserves := safe_reached hnodup h service hservice
  exact ⟨(hpreserves.complete hcomplete).1, hpreserves.canonical, hpreserves.complete_iff hcomplete⟩

theorem complete_items_sample : ∃ d, sampleSystem.Reachable d ∧
    ∃ item ∈ d.items sampleService, item.account = 2 ∧ item.content = ([9], ()) ∧
      item.accessibility = keychainAccessibilityTarget := by
  obtain ⟨d, hd, hcomplete, -, hsaved⟩ := exists_complete
  exact ⟨d, hd, ((complete_items sampleStored_nodup hd (by decide) hcomplete).2.2 2 ([9], ())).1
    hsaved⟩

/-- Whatever was interrupted before, a migration in which no access fails completes, if all items
have an accessibility that it knows, and ends with what the app has stored. -/
theorem migration_completes (hnodup : ∀ service ∈ keychainAccessibilityMigrationAllowedServices,
      ((stored service).map Item.account).Nodup)
    (h : (system accessGroup stored).Reachable d)
    (hservice : service ∈ keychainAccessibilityMigrationAllowedServices)
    (hexpected : ∀ item ∈ d.items service, item.accessibility = keychainAccessibilityTarget ∨
      item.accessibility = keychainAccessibilityLegacy) :
    calmly (ensureFirstUnlockThisDeviceOnly accessGroup service) (fun _ d' =>
      d'.isComplete service ∧ d'.items (stagingService service) = [] ∧
      ∀ account content, d.saved service account = some content ↔
        ∃ item ∈ d'.items service, item.account = account ∧ item.content = content ∧
          item.accessibility = keychainAccessibilityTarget) d := by
  have hpreserves := safe_reached hnodup h service hservice
  refine calmly_mono (fun _ d' h' => ?_) (calmly_and
    (ensureFirstUnlockThisDeviceOnly_spec hpreserves)
    (ensureFirstUnlockThisDeviceOnly_calm hpreserves hservice hexpected))
  obtain ⟨⟨hmigrating, hcomplete⟩, -⟩ := h'
  refine ⟨hcomplete, (hmigrating.preserves.complete hcomplete).1, fun account content => ?_⟩
  rw [← hmigrating.saved]
  exact hmigrating.preserves.complete_iff hcomplete account content

theorem migration_completes_sample : ∃ d, sampleSystem.Reachable d ∧
    calmly (ensureFirstUnlockThisDeviceOnly (fun _ => "") sampleService) (fun _ d' =>
      d'.isComplete sampleService ∧ d'.items (stagingService sampleService) = [] ∧
      ∀ account content, d.saved sampleService account = some content ↔
        ∃ item ∈ d'.items sampleService, item.account = account ∧ item.content = content ∧
          item.accessibility = keychainAccessibilityTarget) d := by
  obtain ⟨d, hd, -, -, hlegacy⟩ := exists_interrupted
  exact ⟨d, hd, migration_completes sampleStored_nodup hd (by decide)
    fun item hitem => .inr (hlegacy item hitem)⟩

end VizorWallet.Keychain
