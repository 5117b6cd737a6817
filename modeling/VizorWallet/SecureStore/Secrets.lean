import VizorWallet.SecureStore.Operations

/-!
# Secrets of the store

A secret is encrypted under the password of the session, which the store knows. Storing and deleting
secrets keeps a store sound, and what is read was stored.

## Main definitions

* `Device.Writable` — no forward record of a change of the password is stored.

## Main results

* `writeSecret_spec`, `deleteSecret_spec` — storing and deleting.
* `readAccountMnemonicBytes_spec` — reading.
-/

namespace VizorWallet.SecureStore

open CodeUnits PaymentLink Effect

variable {Double : Type} {P : Packages Double} {d d' : Device} {slot : Slot}
  {key value password : CodeUnits} {plain : Bytes}

/-! ## Storing -/

/-- What is encrypted opens. -/
theorem encryptBytesWithPassword_spec (hP : P.Faithful) {salt : CodeUnits} :
    always (encryptBytesWithPassword P plain password salt)
      (fun payload d' => Only d d' ∧ Opens P salt password payload plain)
      (fun _ d' => Only d d') d := by
  refine always_then randomBytes_spec (fun nonce d₁ hnonce => ?_) fun _ _ h => h
  refine always_outcome (fun payload hpayload => ?_) fun _ _ => hnonce.2
  exact ⟨hnonce.2, decryptSecretPayload_of_encrypt hP hnonce.1 (mapError_eq_ok.1 hpayload)⟩

/-- A secret is encrypted under the password of the session. -/
theorem encryptSecretBytes_spec (hP : P.Faithful) {generation : ℕ} :
    always (encryptSecretBytes P plain generation)
      (fun payload d' => Kept P d d' ∧ d'.salt ≠ [] ∧
        ∃ password ∈ d.sessionPassword, Opens P d'.salt password payload plain)
      (fun _ d' => Kept P d d') d := by
  refine always_then checkSessionGeneration_spec ?_ fun _ _ h => h.2 ▸ .refl
  rintro - d₁ rfl
  refine always_bind (always_bind (always_device (always_outcome (fun password hpassword => ?_)
    fun _ _ => .refl)))
  rw [orError_eq_ok] at hpassword
  refine always_then (getOrCreateSaltBase64_spec hP) ?_ fun _ _ h => h
  rintro salt d₂ ⟨hkept, rfl, hsalt⟩
  refine always_then checkSessionGeneration_spec ?_ fun _ _ h => h.2 ▸ hkept
  rintro - d₃ rfl
  refine always_then (encryptBytesWithPassword_spec hP) ?_ fun _ _ h => hkept.trans h.kept
  rintro payload d₄ ⟨honly, hopens⟩
  have hkept₄ : Kept P d₁ d₄ := hkept.trans honly.kept
  refine always_then checkSessionGeneration_spec ?_ fun _ _ h => h.2 ▸ hkept₄
  rintro - d₅ rfl
  rw [← honly.agree.salt_eq] at hsalt hopens
  exact always_pure ⟨hkept₄, hsalt, password, hpassword, hopens⟩

/-- No forward record of a change of the password is stored. -/
def Device.Writable (P : Packages Double) (d : Device) : Prop := d.Settled P ∨ d.Failed P

theorem Agree.writable (h : Agree d d') (hwritable : d.Writable P) : d'.Writable P :=
  hwritable.imp h.settled h.failed

theorem saved_save :
    (save slot value plain d).saved = Function.update d.saved slot (some plain) := rfl

theorem saved_forget : (forget slot d).saved = Function.update d.saved slot none := rfl

/-- A stored secret. -/
theorem sound_write (hsound : d.Sound P) (hwritable : d.Writable P)
    (hstate : ∀ key ∈ stateKeys, slot ≠ ⟨.general, key⟩) (hsalt : d.salt ≠ [])
    (hpassword : password ∈ d.passwords) (hopens : Opens P d.salt password value plain) :
    (save slot value plain d).Sound P := by
  have hput : Agree d (d.put slot value) := agree_put hstate
  have hagree : Agree d (save slot value plain d) := ⟨hput.1, hput.2, hput.3, hput.4, hput.5⟩
  refine ⟨fun _ _ => hagree.salt_eq ▸ hsalt, ?_, ?_, hsound.session, hsound.valid, ?_⟩
  · intro slot' hmanaged hsaved
    by_cases hslot : slot' = slot
    · exact ⟨value, List.mem_cons.2 (.inl (by rw [hslot]))⟩
    · have hold : (d.saved slot').isSome := by
        rwa [saved_save, Function.update_of_ne hslot] at hsaved
      obtain ⟨value', hmem⟩ := hsound.stored slot' hmanaged hold
      exact ⟨value', Device.mem_put_of_ne hslot hmem⟩
  · intro slot' hmanaged plain' hplain value' hmem
    rw [hagree.salt_eq]
    obtain ⟨rfl, rfl⟩ | ⟨hslot, hold⟩ := Device.mem_put hmem
    · rw [saved_save, Function.update_self, Option.mem_some] at hplain
      exact ⟨password, hpassword, hplain ▸ hopens⟩
    · rw [saved_save, Function.update_of_ne hslot] at hplain
      exact hsound.opens slot' hmanaged plain' hplain value' hold
  · exact (hagree.writable hwritable).imp id .inr

theorem Kept.writable (h : Kept P d d') (hsound : d.Sound P) (hwritable : d.Writable P) :
    d'.Writable P := by
  obtain hsettled | hpending | hfailed := (h.sound hsound).state
  · exact .inl hsettled
  · obtain ⟨rotation, old, new, hpending⟩ := hpending
    obtain ⟨raw, hraw, -, hkind, -⟩ := hpending.record
    rw [h.record] at hraw
    obtain hsettled | hfailed := hwritable
    · rw [hsettled.record] at hraw
      cases hraw
    · obtain ⟨raw', hraw', hkind'⟩ := hfailed.record
      obtain rfl := Option.some.inj (hraw.symm.trans hraw')
      rw [hkind] at hkind'
      cases hkind'
  · exact .inr hfailed

/-- Storing a secret keeps a store sound. -/
theorem writeSecret_spec (hP : P.Faithful) {operation : CodeUnits} (hsound : d.Sound P)
    (hwritable : d.Writable P) (hstate : ∀ key ∈ stateKeys, slot ≠ ⟨.general, key⟩) :
    always (writeSecret P operation slot value) (fun _ d' => d'.Sound P) (fun _ d' => d'.Sound P)
      d := by
  refine always_bind (always_device ?_)
  refine always_then checkSessionGeneration_spec ?_ fun _ _ h => h.2 ▸ hsound
  rintro - d₁ rfl
  refine always_then (encryptSecretBytes_spec hP) ?_ fun _ _ h => h.sound hsound
  rintro payload d₂ ⟨hkept, hsalt, password, hpassword, hopens⟩
  have hsound₂ := hkept.sound hsound
  have hmem : password ∈ d₂.passwords := hkept.passwords ▸ hsound.session password hpassword
  refine always_then checkSessionGeneration_spec ?_ fun _ _ h => h.2 ▸ hsound₂
  rintro - d₃ rfl
  refine always_bind_keep (runCheckedStorageOperation_spec (fun d₄ h => hsound₂.only h)
    fun d₄ h => ?_) fun _ _ h => always_pure h
  refine sound_write (hsound₂.only h) (h.agree.writable (hkept.writable hsound hwritable)) hstate
    ?_ (h.passwords ▸ hmem) ?_
  · exact h.agree.salt_eq ▸ hsalt
  · exact h.agree.salt_eq ▸ hopens

theorem sound_forget (hsound : d.Sound P) (hstate : ∀ key ∈ stateKeys, slot ≠ ⟨.general, key⟩) :
    (forget slot d).Sound P := by
  have hremove : Agree d (d.remove slot) := agree_remove hstate
  have hagree : Agree d (forget slot d) :=
    ⟨hremove.1, hremove.2, hremove.3, hremove.4, hremove.5⟩
  have hsaved {slot' : Slot} {plain : Bytes} (h : plain ∈ (forget slot d).saved slot') :
      plain ∈ d.saved slot' ∧ slot' ≠ slot := by
    by_cases hslot : slot' = slot
    · subst hslot
      rw [saved_forget, Function.update_self] at h
      cases h
    · rw [saved_forget, Function.update_of_ne hslot] at h
      exact ⟨h, hslot⟩
  refine ⟨fun slot' hsome => ?_, fun slot' hmanaged hsome => ?_, ?_, hsound.session,
    hsound.valid, hagree.state (fun _ _ h => (hsaved h).1) hsound.state⟩
  · obtain ⟨plain, hplain⟩ := Option.isSome_iff_exists.1 hsome
    rw [hagree.salt_eq]
    exact hsound.salt slot' (Option.isSome_iff_exists.2 ⟨plain, (hsaved hplain).1⟩)
  · obtain ⟨plain, hplain⟩ := Option.isSome_iff_exists.1 hsome
    obtain ⟨hold, hslot⟩ := hsaved hplain
    obtain ⟨value', hmem⟩ := hsound.stored slot' hmanaged (Option.isSome_iff_exists.2 ⟨plain, hold⟩)
    exact ⟨value', Device.mem_remove.2 ⟨hmem, hslot⟩⟩
  · intro slot' hmanaged plain hplain value' hmem
    rw [hagree.salt_eq]
    exact hsound.opens slot' hmanaged plain (hsaved hplain).1 value' (Device.mem_remove.1 hmem).1

theorem ne_of_key {service : Service} (hkey : key ∉ stateKeys) :
    ∀ key' ∈ stateKeys, (⟨service, key⟩ : Slot) ≠ ⟨.general, key'⟩ := by
  rintro key' hkey' heq
  exact hkey ((Slot.mk.inj heq).2 ▸ hkey')

/-- Deleting a secret keeps a store sound. -/
theorem deleteSecret_spec (hsound : d.Sound P) (hkey : key ∉ stateKeys) :
    always (deleteSecret P key) (fun _ d' => d'.Sound P) (fun _ d' => d'.Sound P) d := by
  unfold deleteSecret
  by_cases hmnemonic : isAccountMnemonicKey key
  · rw [if_pos hmnemonic]
    have hforget {d' : Device} (h : d'.Sound P) : (forget ⟨mnemonicService P, key⟩ d').Sound P :=
      sound_forget h (ne_of_key hkey)
    refine always_bind_keep (runStorageOperation_spec (fun d₁ h => hforget (hsound.only h))
      (hforget hsound) hsound) fun _ d₁ hsound₁ => ?_
    split_ifs with hP
    · have hservice : mnemonicService P = .mnemonic := if_pos hP
      have hremove {d' : Device} (h : d'.Sound P) : (d'.remove ⟨.general, key⟩).Sound P := by
        refine (kept_remove (ne_of_key hkey) fun hmanaged => ?_).sound h
        have hslot := hmanaged.1
        rw [encryptedSecretSlot, if_pos hmnemonic, hservice] at hslot
        cases hslot
      refine always_rescue_keep ?_ fun _ _ h => always_pure h
      exact always_bind_keep (deleteSlot_spec (fun d₂ h => hremove (hsound₁.only h))
        (hremove hsound₁) hsound₁) fun _ _ h => always_pure h
    · exact always_pure hsound₁
  · rw [if_neg hmnemonic]
    exact always_bind_keep (runStorageOperation_spec
      (fun d₁ h => sound_forget (hsound.only h) (ne_of_key hkey))
      (sound_forget hsound (ne_of_key hkey)) hsound) fun _ _ h => always_pure h

/-! ## Reading -/

/-- The value of a slot opens to its secret. -/
theorem Device.Sound.opens_get (hsound : d.Sound P) (hslot : Managed P slot)
    (hplain : plain ∈ d.saved slot) :
    ∃ value, d.get slot = some value ∧
      ∃ password ∈ d.passwords, Opens P d.salt password value plain := by
  obtain ⟨stored, hstored⟩ := hsound.stored slot hslot (Option.isSome_iff_exists.2 ⟨plain, hplain⟩)
  cases hget : d.get slot with
  | none => exact absurd hstored (Device.not_mem_of_get hget)
  | some value =>
    exact ⟨value, rfl, hsound.opens slot hslot plain hplain value (Device.mem_of_get hget)⟩

/-- When no change of the password is recorded, the password of secrets is the accepted one. -/
theorem Device.Settled.accepts (hsettled : d.Settled P) (hpassword : password ∈ d.passwords) :
    d.passwords = [password] ∧ d.Accepts P password := by
  obtain ⟨hnil, -⟩ | ⟨known, hknown, haccepts⟩ := hsettled.password
  · rw [hnil] at hpassword
    cases hpassword
  · rw [hknown, List.mem_singleton] at hpassword
    exact ⟨hpassword ▸ hknown, hpassword ▸ haccepts⟩

/-- What is read is the secret of a slot, when no change of the password is recorded. -/
def Reads (P : Packages Double) (d : Device) (slot : Slot) (secret : Option Bytes) : Prop :=
  d.Settled P → ∀ plain ∈ d.saved slot, secret = none ∨ secret = some plain

theorem Reads.none : Reads P d slot none := fun _ _ _ => .inl rfl

theorem decryptStoredSecretBytes_spec (hP : P.Faithful) {requireUnlockedSession : Bool}
    {generation : ℕ} (hsound : d.Sound P) (hslot : Managed P slot) :
    always (decryptStoredSecretBytes P (d.get slot) key requireUnlockedSession generation)
      (fun secret d' => d'.Sound P ∧ Reads P d slot secret) (fun _ d' => d'.Sound P) d := by
  refine always_then checkSessionGeneration_spec ?_ fun _ _ h => h.2 ▸ hsound
  rintro - d₁ rfl
  refine always_bind (always_device ?_)
  split_ifs
  · exact always_pure ⟨hsound, .none⟩
  refine always_bind (always_bind (always_device (always_outcome (fun _ _ => ?_)
    fun _ _ => hsound)))
  cases hraw : present (d₁.get slot) with
  | none => exact always_pure ⟨hsound, .none⟩
  | some raw =>
    dsimp only
    split_ifs with hencrypted
    · refine always_then (getOrCreateSaltBase64_spec hP) ?_ fun _ _ h => h.sound hsound
      rintro salt d₂ ⟨hkept, rfl, -⟩
      have hsound₂ := hkept.sound hsound
      refine always_then checkSessionGeneration_spec ?_ fun _ _ h => h.2 ▸ hsound₂
      rintro - d₃ rfl
      refine always_bind (always_device (always_bind (always_outcome (fun password hpassword => ?_)
        fun _ _ => hsound₂)))
      refine always_bind (always_outcome (fun secret hsecret => ?_) fun _ _ => hsound₂)
      refine always_then checkSessionGeneration_spec ?_ fun _ _ h => h.2 ▸ hsound₂
      rintro - d₄ rfl
      refine always_pure ⟨hsound₂, fun hsettled plain hplain => .inr ?_⟩
      obtain ⟨value, hget, known, hknown, hopens⟩ := hsound.opens_get hslot hplain
      have hsession := hsound₂.session password (orError_eq_ok.1 hpassword)
      rw [hkept.passwords, (hsettled.accepts hknown).1, List.mem_singleton] at hsession
      have hsalt := hkept.salt (hsound.salt slot (Option.isSome_iff_exists.2 ⟨plain, hplain⟩))
      obtain rfl : value = raw :=
        Option.some.inj (hget.symm.trans (present_eq_some.1 hraw).1)
      have hdecrypt := mapError_eq_ok.1 hsecret
      rw [hsession, hsalt] at hdecrypt
      exact congrArg some (Except.ok.inj (hdecrypt.symm.trans hopens))
    · exact always_pure ⟨hsound, .none⟩

/-- What is read was stored. -/
theorem readAccountMnemonicBytes_spec (hP : P.Faithful) {accountUuid : CodeUnits}
    {requireUnlockedSession : Bool} (hsound : d.Sound P) :
    always (readAccountMnemonicBytes P accountUuid requireUnlockedSession)
      (fun secret d' => d'.Sound P ∧
        Reads P d ⟨mnemonicService P, accountMnemonicKey accountUuid⟩ secret)
      (fun _ d' => d'.Sound P) d := by
  refine always_bind (always_device ?_)
  refine always_then checkSessionGeneration_spec ?_ fun _ _ h => h.2 ▸ hsound
  rintro - d₁ rfl
  refine always_bind (always_device ?_)
  split_ifs
  · exact always_pure ⟨hsound, .none⟩
  refine always_then readSlot_spec ?_ fun _ _ h => hsound.only h
  rintro raw d₂ ⟨rfl, honly⟩
  refine always_mono (fun secret d' h => ⟨h.1, fun hsettled => ?_⟩) (fun _ _ h => h)
    (decryptStoredSecretBytes_spec hP (hsound.only honly) (managed_accountMnemonicKey accountUuid))
  rw [← honly.saved]
  exact h.2 (honly.agree.settled hsettled)

end VizorWallet.SecureStore
