import VizorWallet.Keychain.Migrator

/-!
# No keychain item is lost

Between a migration's accesses an item may exist twice, or only in the staging service, but what the
app has stored under an account is always somewhere, and nothing else is. When a migration of a
service is marked as complete, its items are all where the app looks for them, and on this device
only.

## Main definitions

* `Device.Preserves` — what holds of a service at any time.
* `Frame` — what the migration of some accounts leaves alone.
* `Device.Settled` — nothing of an account is left to migrate.

## Main results

* `Device.Preserves.insert_canonical`, `Device.Preserves.remove_canonical`, … — what each access
  keeps.
* `add_spec`, `verify_spec`, … — what an operation ends in, whatever happens to it.
-/

namespace VizorWallet.Keychain

open Effect

variable {Account Attributes : Type} {d d' d'' : Device Account Attributes}
  {service other : String} {account : Account} {item : Item Account Attributes}
  {items items' : List (Item Account Attributes)}

/-! ## Items -/

theorem stagingService_ne (service : String) : stagingService service ≠ service := by
  intro h
  have hlength := congrArg String.length h
  simp only [stagingService, String.length_append] at hlength
  have hsuffix : 0 < keychainAccessibilityMigrationStagingSuffix.length := by decide
  omega

theorem stagingService_inj (h : stagingService service = stagingService other) :
    service = other :=
  (String.append_left_inj _).1 h

/-- Staging services are not services of the app. -/
theorem stagingService_ne_allowed : ∀ service ∈ keychainAccessibilityMigrationAllowedServices,
    ∀ other ∈ keychainAccessibilityMigrationAllowedServices, stagingService service ≠ other := by
  decide

namespace Device

@[simp] theorem items_insert (service : String) (item : Item Account Attributes) :
    (d.insert service item).items service = item :: d.items service :=
  Function.update_self ..

theorem items_insert_of_ne (h : other ≠ service) :
    (d.insert service item).items other = d.items other :=
  Function.update_of_ne h ..

end Device

/-- No item has the account. -/
def Absent (items : List (Item Account Attributes)) (account : Account) : Prop :=
  ∀ item ∈ items, item.account ≠ account

/-- The item of an account, if there is one. -/
def Indexed (items : List (Item Account Attributes)) (account : Account)
    (indexed : Option (Item Account Attributes)) : Prop :=
  ∀ item, indexed = some item ↔ item ∈ items ∧ item.account = account

theorem Indexed.absent (h : Indexed items account none) : Absent items account :=
  fun item hitem haccount => by cases (h item).2 ⟨hitem, haccount⟩

theorem Indexed.mem (h : Indexed items account (some item)) :
    item ∈ items ∧ item.account = account :=
  (h item).1 rfl

theorem Indexed.congr {indexed : Option (Item Account Attributes)}
    (h : ∀ item, item.account = account → (item ∈ items' ↔ item ∈ items))
    (hindexed : Indexed items account indexed) : Indexed items' account indexed := fun item => by
  rw [hindexed item, and_congr_left (h item)]

theorem nodup_cons_account (habsent : Absent items item.account)
    (hnodup : (items.map Item.account).Nodup) : ((item :: items).map Item.account).Nodup := by
  rw [List.map_cons, List.nodup_cons]
  refine ⟨fun hmem => ?_, hnodup⟩
  obtain ⟨item', hitem', haccount⟩ := List.mem_map.1 hmem
  exact habsent item' hitem' haccount

/-! ## What migrations keep -/

/-- What the app has stored is there, and nothing else is. -/
structure Device.Preserves (d : Device Account Attributes) (service : String) : Prop where
  canonical : ((d.items service).map Item.account).Nodup
  staged : ((d.items (stagingService service)).map Item.account).Nodup
  stored : ∀ item ∈ d.items service ++ d.items (stagingService service),
    d.saved service item.account = some item.content
  target : ∀ item ∈ d.items (stagingService service),
    item.accessibility = keychainAccessibilityTarget
  kept : ∀ account content, d.saved service account = some content →
    ¬ Absent (d.items service ++ d.items (stagingService service)) account
  complete : d.isComplete service → d.items (stagingService service) = [] ∧
    ∀ item ∈ d.items service, item.accessibility = keychainAccessibilityTarget

/-- What the migration of some accounts leaves alone. -/
structure Frame (service : String) (accounts : List Account) (d d' : Device Account Attributes) :
    Prop where
  items : ∀ other, other ≠ service → other ≠ stagingService service →
    d'.items other = d.items other
  others : ∀ other item, item.account ∉ accounts → (item ∈ d'.items other ↔ item ∈ d.items other)
  saved : d'.saved = d.saved
  isComplete : d'.isComplete = d.isComplete

/-- Nothing of an account is left to migrate. -/
structure Device.Settled (d : Device Account Attributes) (service : String) (account : Account) :
    Prop where
  staged : Absent (d.items (stagingService service)) account
  target : ∀ item ∈ d.items service, item.account = account →
    item.accessibility = keychainAccessibilityTarget

variable {accounts : List Account}

theorem Frame.refl (service : String) (accounts : List Account) (d : Device Account Attributes) :
    Frame service accounts d d :=
  ⟨fun _ _ _ => rfl, fun _ _ _ => Iff.rfl, rfl, rfl⟩

theorem Frame.trans (h : Frame service accounts d d') (h' : Frame service accounts d' d'') :
    Frame service accounts d d'' where
  items other hother hstaging :=
    (h'.items other hother hstaging).trans (h.items other hother hstaging)
  others other item hitem := (h'.others other item hitem).trans (h.others other item hitem)
  saved := h'.saved.trans h.saved
  isComplete := h'.isComplete.trans h.isComplete

theorem Frame.mono {accounts' : List Account} (hle : ∀ account ∈ accounts, account ∈ accounts')
    (h : Frame service accounts d d') : Frame service accounts' d d' :=
  ⟨h.items, fun other item hitem => h.others other item fun hin => hitem (hle _ hin), h.saved,
    h.isComplete⟩

theorem frame_insert (hother : other = service ∨ other = stagingService service)
    (haccount : item.account = account) : Frame service [account] d (d.insert other item) where
  items name hname hstaging := by
    refine Device.items_insert_of_ne ?_
    rintro rfl
    exact hother.elim hname hstaging
  others name item' hitem' := by
    by_cases hname : name = other
    · subst hname
      have hne : item' ≠ item := by
        rintro rfl
        exact hitem' (by rw [haccount]; exact List.mem_singleton_self account)
      simp [hne]
    · rw [Device.items_insert_of_ne hname]
  saved := rfl
  isComplete := rfl

theorem Frame.indexed {indexed : Option (Item Account Attributes)}
    (h : Frame service accounts d d') (haccount : account ∉ accounts)
    (hindexed : Indexed (d.items other) account indexed) :
    Indexed (d'.items other) account indexed :=
  hindexed.congr fun item hitem => h.others other item (by rwa [hitem])

theorem Frame.settled (h : Frame service accounts d d') (haccount : account ∉ accounts)
    (hsettled : d.Settled service account) : d'.Settled service account where
  staged item hitem heq :=
    hsettled.staged item ((h.others _ item (by rwa [heq])).1 hitem) heq
  target item hitem heq :=
    hsettled.target item ((h.others _ item (by rwa [heq])).1 hitem) heq

namespace Device.Preserves

/-- A service is preserved by what leaves it alone. -/
theorem congr (h : d.Preserves service) (hcanonical : d'.items service = d.items service)
    (hstaged : d'.items (stagingService service) = d.items (stagingService service))
    (hsaved : d'.saved service = d.saved service)
    (hcomplete : d'.isComplete service → d.isComplete service) : d'.Preserves service where
  canonical := hcanonical ▸ h.canonical
  staged := hstaged ▸ h.staged
  stored := by rw [hcanonical, hstaged, hsaved]; exact h.stored
  target := by rw [hstaged]; exact h.target
  kept := by rw [hcanonical, hstaged, hsaved]; exact h.kept
  complete hdone := by rw [hcanonical, hstaged]; exact h.complete (hcomplete hdone)

/-- A change that adds only what is saved and removes no item without a copy. -/
theorem change {canonical staged : List (Item Account Attributes)} (h : d.Preserves service)
    (hcanonical : d'.items service = canonical)
    (hstaged : d'.items (stagingService service) = staged)
    (hsaved : d'.saved service = d.saved service) (hnodup : (canonical.map Item.account).Nodup)
    (hnodup' : (staged.map Item.account).Nodup)
    (htarget : ∀ item ∈ staged, item.accessibility = keychainAccessibilityTarget)
    (hstored : ∀ item ∈ canonical ++ staged,
      item ∈ d.items service ++ d.items (stagingService service) ∨
        d.saved service item.account = some item.content)
    (hkept : ∀ item ∈ d.items service ++ d.items (stagingService service),
      ¬ Absent (canonical ++ staged) item.account)
    (hcomplete : d'.isComplete service → staged = [] ∧
      ∀ item ∈ canonical, item.accessibility = keychainAccessibilityTarget) :
    d'.Preserves service := by
  subst hcanonical hstaged
  refine ⟨hnodup, hnodup', fun item hitem => ?_, htarget, fun account content hcontent hnone => ?_,
    hcomplete⟩
  · rw [hsaved]
    exact (hstored item hitem).elim (h.stored item) id
  · rw [hsaved] at hcontent
    exact h.kept account content hcontent fun item hitem haccount =>
      hkept item hitem (haccount ▸ hnone)

/-- A copy of an item that is saved. -/
theorem insert_staged (h : d.Preserves service) (hincomplete : ¬ d.isComplete service)
    (habsent : Absent (d.items (stagingService service)) item.account)
    (hsaved : d.saved service item.account = some item.content)
    (htarget : item.accessibility = keychainAccessibilityTarget) :
    (d.insert (stagingService service) item).Preserves service := by
  refine h.change (items_insert_of_ne (stagingService_ne service).symm) (items_insert _ _) rfl
    h.canonical (nodup_cons_account habsent h.staged) (List.forall_mem_cons.2 ⟨htarget, h.target⟩)
    (fun item' hitem' => ?_) (fun item' hitem' hnone => hnone item' ?_ rfl)
    fun hdone => absurd hdone hincomplete
  · grind
  · grind

/-- An item that is saved and not there yet. -/
theorem insert_canonical (h : d.Preserves service) (habsent : Absent (d.items service) item.account)
    (hsaved : d.saved service item.account = some item.content)
    (htarget : item.accessibility = keychainAccessibilityTarget) :
    (d.insert service item).Preserves service := by
  refine h.change (items_insert _ _) (items_insert_of_ne (stagingService_ne service)) rfl
    (nodup_cons_account habsent h.canonical) h.staged h.target (fun item' hitem' => ?_)
    (fun item' hitem' hnone => hnone item' ?_ rfl) fun hdone => ?_
  · grind
  · grind
  · exact ⟨(h.complete hdone).1, List.forall_mem_cons.2 ⟨htarget, (h.complete hdone).2⟩⟩

/-- Items with an account hold what is saved under it. -/
theorem content_eq {item' : Item Account Attributes} (h : d.Preserves service)
    (hitem : item ∈ d.items service ++ d.items (stagingService service))
    (hitem' : item' ∈ d.items service ++ d.items (stagingService service))
    (haccount : item'.account = item.account) : item'.content = item.content := by
  have hsaved := h.stored item' hitem'
  rw [haccount, h.stored item hitem] at hsaved
  exact (Option.some.inj hsaved).symm

theorem saved_iff (h : d.Preserves service) (account : Account)
    (content : Bytes × Attributes) : d.saved service account = some content ↔
      ∃ item ∈ d.items service ++ d.items (stagingService service),
        item.account = account ∧ item.content = content := by
  constructor
  · intro hsaved
    by_contra hnone
    refine h.kept account content hsaved fun item hitem haccount => ?_
    refine hnone ⟨item, hitem, haccount, ?_⟩
    have hcontent := h.stored item hitem
    rw [haccount, hsaved] at hcontent
    exact (Option.some.inj hcontent).symm
  · rintro ⟨item, hitem, rfl, rfl⟩
    exact h.stored item hitem

theorem complete_iff (h : d.Preserves service) (hcomplete : d.isComplete service)
    (account : Account) (content : Bytes × Attributes) :
    d.saved service account = some content ↔ ∃ item ∈ d.items service,
      item.account = account ∧ item.content = content ∧
      item.accessibility = keychainAccessibilityTarget := by
  obtain ⟨hnone, htarget⟩ := h.complete hcomplete
  rw [h.saved_iff, hnone, List.append_nil]
  constructor
  · rintro ⟨item, hitem, haccount, hcontent⟩
    exact ⟨item, hitem, haccount, hcontent, htarget item hitem⟩
  · rintro ⟨item, hitem, haccount, hcontent, -⟩
    exact ⟨item, hitem, haccount, hcontent⟩

end Device.Preserves

/-- What a migration of an account keeps at each of its accesses. -/
structure Kept (service : String) (accounts : List Account) (d d' : Device Account Attributes) :
    Prop where
  preserves : d'.Preserves service
  frame : Frame service accounts d d'

theorem Kept.refl (h : d.Preserves service) (accounts : List Account) :
    Kept service accounts d d :=
  ⟨h, Frame.refl ..⟩

theorem Kept.mono {accounts accounts' : List Account}
    (hle : ∀ account ∈ accounts, account ∈ accounts') (h : Kept service accounts d d') :
    Kept service accounts' d d' :=
  ⟨h.preserves, h.frame.mono hle⟩

theorem Kept.trans {accounts : List Account} {d'' : Device Account Attributes}
    (h : Kept service accounts d d') (h' : Kept service accounts d' d'') :
    Kept service accounts d d'' :=
  ⟨h'.preserves, h.frame.trans h'.frame⟩

/-- What happens to a service leaves the others alone. -/
structure Elsewhere (service : String) (d d' : Device Account Attributes) : Prop where
  items : ∀ other, other ≠ service → other ≠ stagingService service →
    d'.items other = d.items other
  saved : ∀ other, other ≠ service → d'.saved other = d.saved other
  isComplete : ∀ other, other ≠ service → d'.isComplete other = d.isComplete other

/-- A service whose accounts are all settled is migrated. -/
theorem Device.Preserves.markComplete (h : d.Preserves service)
    (hsettled : ∀ item ∈ d.items service ++ d.items (stagingService service),
      d.Settled service item.account) : (d.markComplete service).Preserves service where
  canonical := h.canonical
  staged := h.staged
  stored := h.stored
  target := h.target
  kept := h.kept
  complete _ := by
    refine ⟨List.eq_nil_iff_forall_not_mem.2 fun item hitem => ?_, fun item hitem => ?_⟩
    · exact (hsettled item (List.mem_append_right _ hitem)).staged item hitem rfl
    · exact (hsettled item (List.mem_append_left _ hitem)).target item hitem rfl

/-- What the migration of a service keeps at each of its accesses. -/
structure Migrating (service : String) (d d' : Device Account Attributes) : Prop where
  preserves : d'.Preserves service
  elsewhere : Elsewhere service d d'
  saved : d'.saved = d.saved

theorem Kept.migrating {accounts : List Account} (h : Kept service accounts d d') :
    Migrating service d d' :=
  ⟨h.preserves, ⟨h.frame.items, fun other _ => congrFun h.frame.saved other,
    fun other _ => congrFun h.frame.isComplete other⟩, h.frame.saved⟩

theorem Migrating.markComplete (h : Migrating service d d')
    (hpreserves : (d'.markComplete service).Preserves service) :
    Migrating service d (d'.markComplete service) where
  preserves := hpreserves
  elsewhere := ⟨h.elsewhere.items, h.elsewhere.saved, fun other hother =>
    (Function.update_of_ne hother ..).trans (h.elsewhere.isComplete other hother)⟩
  saved := h.saved

/-- Every service of the app is preserved. -/
def Device.Safe (d : Device Account Attributes) : Prop :=
  ∀ service ∈ keychainAccessibilityMigrationAllowedServices, d.Preserves service

theorem Device.Safe.elsewhere (h : d.Safe)
    (hservice : service ∈ keychainAccessibilityMigrationAllowedServices)
    (hpreserves : d'.Preserves service) (helsewhere : Elsewhere service d d') : d'.Safe := by
  intro other hother
  by_cases heq : other = service
  · exact heq ▸ hpreserves
  · refine (h other hother).congr (helsewhere.items other heq ?_) (helsewhere.items _ ?_ ?_)
      (helsewhere.saved other heq) ?_
    · exact (stagingService_ne_allowed service hservice other hother).symm
    · exact stagingService_ne_allowed other hother service hservice
    · exact fun hsame => heq (stagingService_inj hsame)
    · rw [helsewhere.isComplete other heq]
      exact id

/-! ## Reading -/

theorem items_spec (service : String) : always (Keychain.items service)
    (fun found d' => found = d.items service ∧ d' = d) (fun _ d' => d' = d) d :=
  always_map (always_access ⟨rfl, rfl⟩ (fun i => i.elim) (fun _ => rfl) fun _ => rfl)

theorem items_calm (service : String) : calmly (Keychain.items service)
    (fun found d' => found = d.items service ∧ d' = d) d :=
  calmly_map (calmly_access ⟨rfl, rfl⟩)

theorem requireMatchingData_spec (item item' : Item Account Attributes) :
    always (requireMatchingData item item') (fun _ d' => d' = d) (fun _ d' => d' = d) d :=
  always_require (fun _ => rfl) fun _ => rfl

/-- Two copies of an item agree. -/
theorem requireMatchingData_calm {item' : Item Account Attributes} (h : d.Preserves service)
    (hitem : item ∈ d.items service) (hitem' : item' ∈ d.items (stagingService service))
    (haccount : item'.account = item.account) :
    calmly (requireMatchingData item item') (fun _ d' => d' = d) d := by
  have hcontent := h.content_eq (List.mem_append_left _ hitem) (List.mem_append_right _ hitem')
    haccount
  exact calmly_require (congrArg Prod.fst hcontent).symm rfl

/-! ## The items of an account -/

variable [LinearOrder Account]

namespace Device

@[simp] theorem items_remove (service : String) (account : Account) :
    (d.remove service account).items service = (d.items service).filter (·.account ≠ account) :=
  Function.update_self ..

theorem items_remove_of_ne (h : other ≠ service) :
    (d.remove service account).items other = d.items other :=
  Function.update_of_ne h ..

theorem absent_remove (service : String) (account : Account) :
    Absent ((d.remove service account).items service) account := fun item hitem => by
  rw [items_remove] at hitem
  simpa using (List.mem_filter.1 hitem).2

@[simp] theorem saved_remove : (d.remove service account).saved = d.saved := rfl

end Device

/-- An item of a list without duplicates is the only one with its account. -/
theorem filter_account (hnodup : (items.map Item.account).Nodup) (h : item ∈ items) :
    items.filter (·.account = item.account) = [item] := by
  induction items with
  | nil => cases h
  | cons first items ih =>
    obtain ⟨hfirst, hrest⟩ := List.nodup_cons.1 hnodup
    have habsent : ∀ x ∈ items, x.account ≠ first.account :=
      fun x hx heq => hfirst (heq ▸ List.mem_map_of_mem hx)
    obtain rfl | hitem := List.mem_cons.1 h
    · rw [List.filter_cons_of_pos (by simp), List.filter_eq_nil_iff.2 (by simpa using habsent)]
    · rw [List.filter_cons_of_neg (by simpa using (habsent item hitem).symm), ih hrest hitem]

/-- The index of a list without duplicates. -/
theorem indexedItems_eq_ok {index result : List (Account × Item Account Attributes)}
    (h : indexedItems items result = .ok index) (account : Account)
    (item : Item Account Attributes) : index.lookup account = some item ↔
      item ∈ items ∧ item.account = account ∨ result.lookup account = some item := by
  induction items generalizing result with
  | nil =>
    cases h
    simp
  | cons first items ih =>
    unfold indexedItems at h
    split_ifs at h with hfirst
    rw [ih h, lookup_insertKey]
    split_ifs with haccount
    · subst haccount
      have hnone := Option.not_isSome_iff_eq_none.1 hfirst
      simp only [hnone, List.mem_cons, Option.some.injEq, reduceCtorEq, or_false]
      constructor
      · rintro (⟨hitem, heq⟩ | rfl)
        · exact ⟨.inr hitem, heq⟩
        · exact ⟨.inl rfl, rfl⟩
      · rintro ⟨rfl | hitem, heq⟩
        · exact .inr rfl
        · exact .inl ⟨hitem, heq⟩
    · have hne : item.account = account → item ≠ first := fun heq hfirst =>
        haccount (by rw [← heq, hfirst])
      grind

theorem frame_remove (hother : other = service ∨ other = stagingService service) :
    Frame service [account] d (d.remove other account) where
  items name hname hstaging := by
    refine Device.items_remove_of_ne ?_
    rintro rfl
    exact hother.elim hname hstaging
  others name item' hitem' := by
    by_cases hname : name = other
    · subst hname
      simp only [List.mem_singleton] at hitem'
      simp [hitem']
    · rw [Device.items_remove_of_ne hname]
  saved := rfl
  isComplete := rfl

namespace Device.Preserves

/-- An item that has a copy. -/
theorem remove_canonical (h : d.Preserves service)
    (hcopy : ¬ Absent (d.items (stagingService service)) account) :
    (d.remove service account).Preserves service := by
  refine h.change (items_remove _ _) (items_remove_of_ne (stagingService_ne service)) rfl
    (h.canonical.sublist (List.filter_sublist.map _)) h.staged h.target (fun item hitem => ?_)
    (fun item hitem hnone => ?_) fun hdone => ?_
  · grind
  · by_cases haccount : item.account = account
    · exact hcopy fun copy hmem heq =>
        hnone copy (List.mem_append_right _ hmem) (heq.trans haccount.symm)
    · refine hnone item ?_ rfl
      grind
  · exact ⟨(h.complete hdone).1, fun item hitem =>
      (h.complete hdone).2 item (List.mem_of_mem_filter hitem)⟩

/-- The copy of an item that is there. -/
theorem remove_staged (h : d.Preserves service) (hitem : ¬ Absent (d.items service) account) :
    (d.remove (stagingService service) account).Preserves service := by
  refine h.change (items_remove_of_ne (stagingService_ne service).symm) (items_remove _ _) rfl
    h.canonical (h.staged.sublist (List.filter_sublist.map _))
    (fun item hitem => h.target item (List.mem_of_mem_filter hitem)) (fun item hitem => ?_)
    (fun item hmem hnone => ?_) fun hdone => ?_
  · grind
  · by_cases haccount : item.account = account
    · exact hitem fun original hmem heq =>
        hnone original (List.mem_append_left _ hmem) (heq.trans haccount.symm)
    · refine hnone item ?_ rfl
      grind
  · rw [(h.complete hdone).1]
    exact ⟨rfl, (h.complete hdone).2⟩

end Device.Preserves

/-! ## Operations -/

section Operations

variable {accessGroup : Attributes → String}

theorem has_eq_false (habsent : Absent (d.items service) item.account) :
    d.has accessGroup service item = false := by
  refine List.any_eq_false.2 fun other hother hsame => ?_
  simp only [Bool.and_eq_true, decide_eq_true_eq] at hsame
  exact habsent other hother hsame.1

theorem add_spec (habsent : Absent (d.items service) item.account) :
    always (add accessGroup item service)
      (fun _ d' => d' = d.insert service item.forThisDevice)
      (fun _ d' => d' = d ∨ d' = d.insert service item.forThisDevice) d := by
  have hnew : d.has accessGroup service item = false := has_eq_false habsent
  refine always_bind (always_access ?_ (fun i => i.elim) (fun _ => .inl rfl) fun _ => .inr ?_)
  · refine always_require (fun _ => ?_) fun hduplicate => absurd hnew (by simpa using hduplicate)
    rw [hnew]
    rfl
  · rw [hnew]
    rfl

theorem add_calm (habsent : Absent (d.items service) item.account) :
    calmly (add accessGroup item service)
      (fun _ d' => d' = d.insert service item.forThisDevice) d := by
  have hnew : d.has accessGroup service item = false := has_eq_false habsent
  refine calmly_bind (calmly_access (calmly_require (by simp [hnew]) ?_))
  rw [hnew]
  rfl

theorem delete_spec (account : Account) : always (delete service account)
    (fun _ d' => d' = d.remove service account)
    (fun _ d' => d' = d ∨ d' = d.remove service account) d :=
  always_bind (always_access (always_pure rfl) (fun i => i.elim) (fun _ => .inl rfl)
    fun _ => .inr rfl)

theorem delete_calm (account : Account) : calmly (delete service account)
    (fun _ d' => d' = d.remove service account) d :=
  calmly_bind (calmly_access (calmly_pure rfl))

theorem verify_spec (item : Item Account Attributes) (service : String) :
    always (verify item service) (fun _ d' => d' = d) (fun _ d' => d' = d) d := by
  refine always_then (items_spec service) (fun found d' h => ?_) fun _ _ h => h
  obtain ⟨rfl, rfl⟩ := h
  dsimp only
  split
  · exact always_bind (always_require (fun _ => requireMatchingData_spec _ _) fun _ => rfl)
  · exact always_throw rfl

/-- A verification finds what was stored. -/
theorem verify_calm (stored : Item Account Attributes)
    (hnodup : ((d.items service).map Item.account).Nodup) (hstored : stored ∈ d.items service)
    (haccount : stored.account = item.account) (hdata : stored.data = item.data)
    (htarget : stored.accessibility = keychainAccessibilityTarget) :
    calmly (verify item service) (fun _ d' => d' = d) d := by
  refine calmly_bind (calmly_mono (fun found d' h => ?_) (items_calm service))
  obtain ⟨rfl, rfl⟩ := h
  rw [← haccount, filter_account hnodup hstored]
  exact calmly_bind (calmly_require htarget (calmly_require hdata.symm rfl))

end Operations

end VizorWallet.Keychain
