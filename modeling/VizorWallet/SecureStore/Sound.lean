import VizorWallet.SecureStore.Store

/-!
# Stores whose secrets can be opened

Every secret of a sound store is encrypted under a password that it knows: the wallet password, or,
from the record of a change of the password on, one of the two.

## Main definitions

* `Opens` — a payload decrypts to a secret.
* `Covers` — a record from which all secrets can be stored under the new password.
* `Device.Sound` — the invariant.
* `Only` — what waiting for an access may change.

## Main results

* `Device.Sound.only` — waiting keeps a store sound.
* `tryParse_of_serialize` — the record reads back.
-/

namespace VizorWallet.SecureStore

open CodeUnits PaymentLink Effect

variable {Double : Type} {P : Packages Double}

/-! ## Keys -/

/-- The slots of the secrets that a change of the password encrypts anew. -/
def Managed (P : Packages Double) (slot : Slot) : Prop :=
  slot = encryptedSecretSlot P slot.key ∧
    (isAccountMnemonicKey slot.key ∨ isAppManagedGeneralSecretKey slot.key)

/-- Two texts that one text starts with start one with the other. -/
theorem not_isPrefixOf {p q key : CodeUnits} (hpq : ¬ p <+: q) (hqp : ¬ q <+: p)
    (hp : p.isPrefixOf key) : ¬ q.isPrefixOf key := by
  intro hq
  obtain h | h := List.prefix_or_prefix_of_prefix (List.isPrefixOf_iff_prefix.1 hp)
    (List.isPrefixOf_iff_prefix.1 hq)
  · exact hpq h
  · exact hqp h

/-- The keys of general secrets are no keys of mnemonics. -/
theorem not_isAccountMnemonicKey {key : CodeUnits} (h : isAppManagedGeneralSecretKey key) :
    ¬ isAccountMnemonicKey key := by
  simp only [isAppManagedGeneralSecretKey, Bool.or_eq_true, decide_eq_true_eq] at h
  obtain ((h | h) | rfl) | rfl := h
  · exact not_isPrefixOf (by decide) (by decide) h
  · exact not_isPrefixOf (by decide) (by decide) h
  · decide
  · decide

theorem managed_mnemonic {key : CodeUnits} (h : isAccountMnemonicKey key) :
    Managed P ⟨mnemonicService P, key⟩ := by
  refine ⟨?_, .inl h⟩
  rw [encryptedSecretSlot, if_pos h]

theorem managed_accountMnemonicKey (accountUuid : CodeUnits) :
    Managed P ⟨mnemonicService P, accountMnemonicKey accountUuid⟩ :=
  managed_mnemonic (List.isPrefixOf_iff_prefix.2 (List.prefix_append _ _))

theorem managed_general {key : CodeUnits} (h : isAppManagedGeneralSecretKey key) :
    Managed P ⟨.general, key⟩ := by
  refine ⟨?_, .inr h⟩
  rw [encryptedSecretSlot, if_neg (not_isAccountMnemonicKey h)]

/-- The keys of the salt of secrets, of the verifier, and of a change of the password. -/
def stateKeys : List CodeUnits := [secureStoreSaltKey, passwordVerifierKey, passwordVerifierSaltKey,
  passwordRotationInProgressKey]

/-- The keys that the store itself uses. -/
def internalKeys : List CodeUnits := accountMnemonicMigrationCompleteKey :: stateKeys

theorem not_managed {key : CodeUnits} (service : Service) (h : key ∈ internalKeys) :
    ¬ Managed P ⟨service, key⟩ := by
  have hkeys : ∀ key ∈ internalKeys,
      ¬ (isAccountMnemonicKey key ∨ isAppManagedGeneralSecretKey key) := by
    simp only [internalKeys, stateKeys, List.forall_mem_cons]
    refine ⟨?_, ?_, ?_, ?_, ?_, fun _ hnil => absurd hnil List.not_mem_nil⟩ <;> decide
  exact fun hmanaged => hkeys key h hmanaged.2

theorem ne_of_managed {slot : Slot} (hslot : Managed P slot) :
    ∀ key ∈ stateKeys, slot ≠ ⟨.general, key⟩ := by
  rintro key hkey rfl
  exact not_managed .general (List.mem_cons_of_mem _ hkey) hslot

/-! ## Entries -/

namespace Device

variable {d d' : Device} {slot slot' : Slot} {value value' : CodeUnits}

theorem get_put : (d.put slot value).get slot' = if slot' = slot then some value else d.get slot' :=
  lookup_insertKey slot slot' value d.entries

@[simp] theorem get_put_self : (d.put slot value).get slot = some value := by
  rw [get_put, if_pos rfl]

theorem get_put_of_ne (h : slot' ≠ slot) : (d.put slot value).get slot' = d.get slot' := by
  rw [get_put, if_neg h]

theorem get_remove : (d.remove slot).get slot' = if slot' = slot then none else d.get slot' := by
  refine (lookup_filter_key (fun s => decide (s ≠ slot)) d.entries slot').trans ?_
  by_cases hslot : slot' = slot
  · rw [if_pos hslot, if_neg (by simp [hslot])]
  · rw [if_neg hslot, if_pos (decide_eq_true hslot)]
    rfl

theorem mem_put (h : (slot', value') ∈ (d.put slot value).entries) :
    slot' = slot ∧ value' = value ∨ slot' ≠ slot ∧ (slot', value') ∈ d.entries := by
  obtain heq | ⟨hmem, hne⟩ := mem_insertKey h
  · exact .inl (Prod.mk.inj heq)
  · exact .inr ⟨hne, hmem⟩

theorem mem_put_of_ne (hne : slot' ≠ slot) (h : (slot', value') ∈ d.entries) :
    (slot', value') ∈ (d.put slot value).entries :=
  List.mem_cons_of_mem _ (List.mem_filter.2 ⟨h, decide_eq_true hne⟩)

theorem mem_remove : (slot', value') ∈ (d.remove slot).entries ↔
    (slot', value') ∈ d.entries ∧ slot' ≠ slot := by
  simp [remove]

theorem mem_of_get (h : d.get slot = some value) : (slot, value) ∈ d.entries :=
  mem_of_lookup_eq_some h

theorem not_mem_of_get (h : d.get slot = none) : (slot, value) ∉ d.entries := fun hmem => by
  have hne := List.lookup_eq_none_iff.1 h _ hmem
  simp at hne

theorem mem_readAll {service : Service} {key : CodeUnits} :
    (key, value) ∈ d.readAll service ↔ (⟨service, key⟩, value) ∈ d.entries := by
  simp only [readAll, List.mem_map, List.mem_filter, decide_eq_true_eq, Prod.mk.injEq]
  constructor
  · rintro ⟨⟨⟨_, _⟩, _⟩, ⟨hmem, rfl⟩, rfl, rfl⟩
    exact hmem
  · exact fun hmem => ⟨(⟨service, key⟩, value), ⟨hmem, rfl⟩, rfl, rfl⟩

end Device

/-! ## The record reads back -/

variable {raw : CodeUnits} {record : PasswordRotationRecord}

theorem tryParse_of_serialize (hP : P.Faithful) (h : record.serialize P = .ok raw) :
    PasswordRotationRecord.tryParse P raw = some record := by
  rw [PasswordRotationRecord.serialize, orError_eq_ok] at h
  have hentries : (record.entries.map PasswordRotationEntry.toJson).mapM
      (@PasswordRotationEntry.fromJson? Double) = some record.entries := by
    induction record.entries with
    | nil => rfl
    | cons entry rest ih =>
      rw [List.map_cons, List.mapM_cons, ih]
      rfl
  rw [PasswordRotationRecord.tryParse, hP.jsonDecode_jsonEncode h]
  change (guard (equalsNumber P (.int 1) 1) >>= fun _ =>
    (record.entries.map PasswordRotationEntry.toJson).mapM PasswordRotationEntry.fromJson? >>=
      fun entries => pure (PasswordRotationRecord.mk record.newVerifierSalt record.newVerifier
        entries)) = _
  rw [hentries]
  rfl

/-- The record of a change is not taken for the mark of a failed rollback. -/
theorem isRollbackFailed_serialize (hP : P.Faithful) (h : record.serialize P = .ok raw) :
    isRollbackFailedRotationRecord P raw = false := by
  rw [PasswordRotationRecord.serialize, orError_eq_ok] at h
  have hkind : (@lookup Double [
      (literal "v", .int 1),
      (literal "newVerifierSalt", .string record.newVerifierSalt),
      (literal "newVerifier", .string record.newVerifier),
      (literal "entries", .list (record.entries.map PasswordRotationEntry.toJson))]
        "kind").string? = none := rfl
  simp only [isRollbackFailedRotationRecord, hP.jsonDecode_jsonEncode h,
    PasswordRotationRecord.toJson, hkind, reduceCtorEq, decide_false, Bool.and_false]

theorem isRollbackFailed_marker (hP : P.Faithful)
    (h : P.jsonEncode rollbackFailedJson = some raw) : isRollbackFailedRotationRecord P raw := by
  rw [isRollbackFailedRotationRecord, hP.jsonDecode_jsonEncode h]
  rfl

/-! ## The invariant -/

/-- A payload decrypts to a secret. -/
def Opens (P : Packages Double) (salt password payload : CodeUnits) (plain : Bytes) : Prop :=
  decryptSecretPayload P payload password salt = .ok plain

abbrev saltSlot : Slot := ⟨.general, secureStoreSaltKey⟩

abbrev verifierSaltSlot : Slot := ⟨.general, passwordVerifierSaltKey⟩

abbrev verifierSlot : Slot := ⟨.general, passwordVerifierKey⟩

namespace Device

/-- The salt of secrets; no text when there is none. -/
def salt (d : Device) : CodeUnits := (present (d.get saltSlot)).getD []

/-- A password is configured. -/
def Configured (d : Device) : Prop :=
  (present (d.get verifierSaltSlot)).isSome ∧ (present (d.get verifierSlot)).isSome

/-- The verifier is that of a password. -/
def Accepts (P : Packages Double) (d : Device) (password : CodeUnits) : Prop :=
  ∃ salt verifier, present (d.get verifierSaltSlot) = some salt ∧
    present (d.get verifierSlot) = some verifier ∧
    deriveSecretPasswordVerifier P password salt = .ok verifier

end Device

/-- Entries whose values are all secrets, under a password. -/
structure Rewrites (P : Packages Double) (d : Device) {β : Type} (key value : β → CodeUnits)
    (entries : List β) (password : CodeUnits) : Prop where
  managed : ∀ e ∈ entries, Managed P (encryptedSecretSlot P (key e))
  entry : ∀ slot, Managed P slot → (d.saved slot).isSome →
    ∃ e ∈ entries, encryptedSecretSlot P (key e) = slot
  opens : ∀ e ∈ entries, ∀ plain ∈ d.saved (encryptedSecretSlot P (key e)),
    Opens P d.salt password (value e) plain

/-- A record from which all secrets can be stored under a new password. -/
structure Covers (P : Packages Double) (d : Device) (record : PasswordRotationRecord)
    (new : CodeUnits) : Prop where
  verifierSalt : record.newVerifierSalt ≠ []
  verifier : deriveSecretPasswordVerifier P new record.newVerifierSalt = .ok record.newVerifier
  rewrites : Rewrites P d PasswordRotationEntry.key PasswordRotationEntry.rotatedValue
    record.entries new

namespace Device

/-- No change of the password is recorded. -/
structure Settled (P : Packages Double) (d : Device) : Prop where
  record : d.get rotationSlot = none
  password : d.passwords = [] ∧ present (d.get verifierSlot) = none ∨
    ∃ password, d.passwords = [password] ∧ d.Accepts P password

/-- A change of the password is recorded. -/
structure Pending (P : Packages Double) (d : Device) (rotation : PasswordRotationRecord)
    (old new : CodeUnits) : Prop where
  passwords : d.passwords = [old, new]
  record : ∃ raw, d.get rotationSlot = some raw ∧ raw ≠ [] ∧
    isRollbackFailedRotationRecord P raw = false ∧
    PasswordRotationRecord.tryParse P raw = some rotation
  covers : Covers P d rotation new
  configured : d.Configured

/-- A failed rollback is marked. -/
structure Failed (P : Packages Double) (d : Device) : Prop where
  passwords : ∃ old new, d.passwords = [old, new]
  record : ∃ raw, d.get rotationSlot = some raw ∧ isRollbackFailedRotationRecord P raw
  configured : d.Configured

/-- Every secret is stored, and opens under a known password. -/
structure Sound (P : Packages Double) (d : Device) : Prop where
  salt : ∀ slot, (d.saved slot).isSome → d.salt ≠ []
  stored : ∀ slot, Managed P slot → (d.saved slot).isSome → ∃ value, (slot, value) ∈ d.entries
  opens : ∀ slot, Managed P slot → ∀ plain ∈ d.saved slot, ∀ value, (slot, value) ∈ d.entries →
    ∃ password ∈ d.passwords, Opens P d.salt password value plain
  session : ∀ password ∈ d.sessionPassword, password ∈ d.passwords
  valid : ∀ password ∈ d.passwords, isWalletPasswordValid P password
  state : d.Settled P ∨ (∃ rotation old new, d.Pending P rotation old new) ∨ d.Failed P

/-- Every secret opens under one password. -/
def Under (P : Packages Double) (d : Device) (password : CodeUnits) : Prop :=
  ∀ slot, Managed P slot → ∀ plain ∈ d.saved slot, ∀ value, (slot, value) ∈ d.entries →
    Opens P d.salt password value plain

end Device

/-! ## Frames -/

/-- What waiting for an access may change: the session may be closed. -/
structure Only (d d' : Device) : Prop where
  entries : d'.entries = d.entries
  saved : d'.saved = d.saved
  passwords : d'.passwords = d.passwords
  session : ∀ password ∈ d'.sessionPassword, password ∈ d.sessionPassword
  mutation : d'.hasPendingMutation = d.hasPendingMutation
  generation : d.hasPendingMutation →
    d'.sessionGeneration = d.sessionGeneration ∨ d'.sessionPassword = none

variable {d d' d'' : Device} {slot : Slot} {value password : CodeUnits}

namespace Only

theorem refl : Only d d := ⟨rfl, rfl, rfl, fun _ h => h, rfl, fun _ => .inl rfl⟩

theorem trans (h : Only d d') (h' : Only d' d'') : Only d d'' where
  entries := h'.entries.trans h.entries
  saved := h'.saved.trans h.saved
  passwords := h'.passwords.trans h.passwords
  session password hpassword := h.session password (h'.session password hpassword)
  mutation := h'.mutation.trans h.mutation
  generation hpending := by
    obtain hsame' | hclosed' := h'.generation (h.mutation.trans hpending)
    · refine (h.generation hpending).imp hsame'.trans fun hclosed => ?_
      refine Option.eq_none_iff_forall_not_mem.2 fun password hpassword => ?_
      have hmem := h'.session password hpassword
      rw [hclosed] at hmem
      cases hmem
    · exact .inr hclosed'

theorem act (i : Interference) : Only d (act P i d) := by
  cases i with
  | locks => exact ⟨rfl, rfl, rfl, fun _ h => (by cases h), rfl, fun _ => .inr rfl⟩
  | invalidates =>
    rw [SecureStore.act]
    split_ifs with hpending
    · exact .refl
    · exact ⟨rfl, rfl, rfl, fun _ h => h, rfl, fun h => absurd h hpending⟩

theorem get (h : Only d d') : d'.get slot = d.get slot := by
  rw [Device.get, h.entries, Device.get]

theorem readAll (h : Only d d') (service : Service) : d'.readAll service = d.readAll service := by
  rw [Device.readAll, h.entries, Device.readAll]

end Only

/-- A pending change of the wallet, whose session is the one of a generation, or closed. -/
structure Device.Owned (P : Packages Double) (d : Device) (generation : ℕ) : Prop where
  mutation : d.hasPendingMutation
  session : d.isSessionGenerationCurrent P generation ∨ d.sessionPassword = none

theorem Only.owned (h : Only d d') {generation : ℕ} (howned : d.Owned P generation) :
    d'.Owned P generation := by
  refine ⟨h.mutation.trans howned.mutation, ?_⟩
  obtain hsame | hclosed := h.generation howned.mutation
  · refine howned.session.imp (fun hcurrent => ?_) fun hclosed => ?_
    · rwa [Device.isSessionGenerationCurrent, hsame]
    · refine Option.eq_none_iff_forall_not_mem.2 fun password hpassword => ?_
      have hmem := h.session password hpassword
      rw [hclosed] at hmem
      cases hmem
  · exact .inr hclosed

theorem Rewrites.congr {β : Type} {key value : β → CodeUnits} {entries : List β}
    (h : Rewrites P d key value entries password) (hsalt : d'.salt = d.salt)
    (hsaved : ∀ slot, ∀ plain ∈ d'.saved slot, plain ∈ d.saved slot) :
    Rewrites P d' key value entries password where
  managed := h.managed
  entry slot hmanaged hsome := by
    obtain ⟨plain, hplain⟩ := Option.isSome_iff_exists.1 hsome
    exact h.entry slot hmanaged (Option.isSome_iff_exists.2 ⟨plain, hsaved slot plain hplain⟩)
  opens e he plain hplain := by
    rw [hsalt]
    exact h.opens e he plain (hsaved _ plain hplain)

/-- The passwords, the salt, the verifier and the record are the same. -/
structure Agree (d d' : Device) : Prop where
  passwords : d'.passwords = d.passwords
  salt : d'.get saltSlot = d.get saltSlot
  verifierSalt : d'.get verifierSaltSlot = d.get verifierSaltSlot
  verifier : d'.get verifierSlot = d.get verifierSlot
  record : d'.get rotationSlot = d.get rotationSlot

namespace Agree

theorem salt_eq (h : Agree d d') : d'.salt = d.salt := by
  rw [Device.salt, h.salt, Device.salt]

theorem configured (h : Agree d d') : d'.Configured ↔ d.Configured := by
  rw [Device.Configured, h.verifierSalt, h.verifier, Device.Configured]

theorem accepts (h : Agree d d') : d'.Accepts P password ↔ d.Accepts P password := by
  rw [Device.Accepts, h.verifierSalt, h.verifier, Device.Accepts]

theorem settled (h : Agree d d') (hsettled : d.Settled P) : d'.Settled P := by
  refine ⟨h.record.trans hsettled.record, ?_⟩
  rw [h.passwords, h.verifier]
  refine hsettled.password.imp_right fun hpassword => ?_
  obtain ⟨password, hpasswords, haccepts⟩ := hpassword
  exact ⟨password, hpasswords, h.accepts.2 haccepts⟩

theorem failed (h : Agree d d') (hfailed : d.Failed P) : d'.Failed P :=
  ⟨h.passwords ▸ hfailed.passwords, h.record ▸ hfailed.record, h.configured.2 hfailed.configured⟩

variable {rotation : PasswordRotationRecord} {old new : CodeUnits}

theorem pending (h : Agree d d') (hsaved : ∀ slot, ∀ plain ∈ d'.saved slot, plain ∈ d.saved slot)
    (hpending : d.Pending P rotation old new) : d'.Pending P rotation old new where
  passwords := h.passwords.trans hpending.passwords
  record := h.record ▸ hpending.record
  covers := ⟨hpending.covers.verifierSalt, hpending.covers.verifier,
    hpending.covers.rewrites.congr h.salt_eq hsaved⟩
  configured := h.configured.2 hpending.configured

/-- The state is the same, when no secret is stored. -/
theorem state (h : Agree d d') (hsaved : ∀ slot, ∀ plain ∈ d'.saved slot, plain ∈ d.saved slot)
    (hstate : d.Settled P ∨ (∃ rotation old new, d.Pending P rotation old new) ∨ d.Failed P) :
    d'.Settled P ∨ (∃ rotation old new, d'.Pending P rotation old new) ∨ d'.Failed P := by
  obtain hsettled | ⟨rotation, old, new, hpending⟩ | hfailed := hstate
  · exact .inl (h.settled hsettled)
  · exact .inr (.inl ⟨rotation, old, new, h.pending hsaved hpending⟩)
  · exact .inr (.inr (h.failed hfailed))

end Agree

theorem Only.agree (h : Only d d') : Agree d d' := ⟨h.passwords, h.get, h.get, h.get, h.get⟩

/-- Waiting keeps a store sound. -/
theorem Device.Sound.only (hsound : d.Sound P) (h : Only d d') : d'.Sound P where
  salt := by
    rw [h.saved, h.agree.salt_eq]
    exact hsound.salt
  stored := by
    rw [h.saved, h.entries]
    exact hsound.stored
  opens := by
    rw [h.saved, h.entries, h.passwords, h.agree.salt_eq]
    exact hsound.opens
  session password hpassword := h.passwords ▸ hsound.session password (h.session password hpassword)
  valid := h.passwords ▸ hsound.valid
  state := h.agree.state (fun _ _ hplain => h.saved ▸ hplain) hsound.state

theorem Device.Under.only (hunder : d.Under P password) (h : Only d d') : d'.Under P password := by
  rw [Device.Under, h.saved, h.entries, h.agree.salt_eq]
  exact hunder

/-- An entry is stored that the state is not about. -/
theorem agree_put (hslot : ∀ key ∈ stateKeys, slot ≠ ⟨.general, key⟩) :
    Agree d (d.put slot value) :=
  ⟨rfl, Device.get_put_of_ne (hslot _ (by decide)).symm,
    Device.get_put_of_ne (hslot _ (by decide)).symm,
    Device.get_put_of_ne (hslot _ (by decide)).symm,
    Device.get_put_of_ne (hslot _ (by decide)).symm⟩

theorem agree_remove (hslot : ∀ key ∈ stateKeys, slot ≠ ⟨.general, key⟩) :
    Agree d (d.remove slot) := by
  have hget {key : CodeUnits} (h : key ∈ stateKeys) :
      (d.remove slot).get ⟨.general, key⟩ = d.get ⟨.general, key⟩ := by
    rw [Device.get_remove, if_neg (hslot key h).symm]
  exact ⟨rfl, hget (by decide), hget (by decide), hget (by decide), hget (by decide)⟩

/-- The secrets and their salt are the same. -/
structure SameSecrets (P : Packages Double) (d d' : Device) : Prop where
  saved : d'.saved = d.saved
  salt : d'.get saltSlot = d.get saltSlot
  entries : ∀ slot value, Managed P slot → ((slot, value) ∈ d'.entries ↔ (slot, value) ∈ d.entries)

namespace SameSecrets

theorem salt_eq (h : SameSecrets P d d') : d'.salt = d.salt := by
  rw [Device.salt, h.salt, Device.salt]

theorem known (h : SameSecrets P d d') (passwords : List CodeUnits) :
    SameSecrets P d (d'.known passwords) := ⟨h.saved, h.salt, h.entries⟩

theorem under (h : SameSecrets P d d') (hunder : d.Under P password) : d'.Under P password := by
  intro slot hmanaged plain hplain value hmem
  rw [h.salt_eq]
  exact hunder slot hmanaged plain (h.saved ▸ hplain) value ((h.entries slot value hmanaged).1 hmem)

/-- A store whose passwords and whose state have changed. -/
theorem sound (h : SameSecrets P d d') (hsound : d.Sound P)
    (hopens : ∀ slot, Managed P slot → ∀ plain ∈ d.saved slot, ∀ value, (slot, value) ∈ d.entries →
      ∃ password ∈ d'.passwords, Opens P d.salt password value plain)
    (hsession : ∀ password ∈ d'.sessionPassword, password ∈ d'.passwords)
    (hvalid : ∀ password ∈ d'.passwords, isWalletPasswordValid P password)
    (hstate : d'.Settled P ∨ (∃ rotation old new, d'.Pending P rotation old new) ∨ d'.Failed P) :
    d'.Sound P where
  salt slot hsome := by
    rw [h.salt_eq]
    exact hsound.salt slot (h.saved ▸ hsome)
  stored slot hmanaged hsome := by
    obtain ⟨value, hmem⟩ := hsound.stored slot hmanaged (h.saved ▸ hsome)
    exact ⟨value, (h.entries slot value hmanaged).2 hmem⟩
  opens slot hmanaged plain hplain value hmem := by
    rw [h.salt_eq]
    exact hopens slot hmanaged plain (h.saved ▸ hplain) value
      ((h.entries slot value hmanaged).1 hmem)
  session := hsession
  valid := hvalid
  state := hstate

end SameSecrets

theorem get_put_of_key {key key' : CodeUnits} (h : key' ≠ key) :
    (d.put ⟨.general, key⟩ value).get ⟨.general, key'⟩ = d.get ⟨.general, key'⟩ :=
  Device.get_put_of_ne fun heq => h (Slot.mk.inj heq).2

theorem get_remove_of_key {key key' : CodeUnits} (h : key' ≠ key) :
    (d.remove ⟨.general, key⟩).get ⟨.general, key'⟩ = d.get ⟨.general, key'⟩ := by
  rw [Device.get_remove, if_neg fun heq => h (Slot.mk.inj heq).2]

theorem sameSecrets_put {key : CodeUnits} (hkey : key ∈ stateKeys)
    (hsalt : key ≠ secureStoreSaltKey) : SameSecrets P d (d.put ⟨.general, key⟩ value) where
  saved := rfl
  salt := get_put_of_key hsalt.symm
  entries slot value' hmanaged := by
    have hne := ne_of_managed hmanaged key hkey
    refine ⟨fun hmem => ?_, Device.mem_put_of_ne hne⟩
    obtain ⟨heq, -⟩ | ⟨-, hold⟩ := Device.mem_put hmem
    · exact absurd heq hne
    · exact hold

theorem sameSecrets_remove {key : CodeUnits} (hkey : key ∈ stateKeys)
    (hsalt : key ≠ secureStoreSaltKey) : SameSecrets P d (d.remove ⟨.general, key⟩) where
  saved := rfl
  salt := get_remove_of_key hsalt.symm
  entries _ _ hmanaged :=
    Device.mem_remove.trans (and_iff_left (ne_of_managed hmanaged key hkey))

end VizorWallet.SecureStore
