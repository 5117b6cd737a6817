import VizorWallet.SecureStore.Runs

/-!
# When the storage works

An interrupted change of the password goes on to its end, the wallet password opens the session, and
a mnemonic is read as it was stored.

## Main results

* `recovery_completes` — after a restart, a recorded change ends in the new password.
* `mnemonic_read` — unlocking and reading give back what was stored.
-/

namespace VizorWallet.SecureStore

open CodeUnits PaymentLink Effect

variable {Double : Type} {P : Packages Double} {d d' : Device} {slot : Slot}
  {key value password : CodeUnits} {plain : Bytes} {entries : List (Slot × CodeUnits)}

/-! ## Accesses -/

theorem calmly_runStorageOperation {operation : CodeUnits} {f : Device → Device} :
    calmly (runStorageOperation P operation f) (fun before d' => before = d ∧ d' = f d) d :=
  calmly_access ⟨rfl, rfl⟩

theorem calmly_readSlot {operation : CodeUnits} :
    calmly (readSlot P operation slot) (fun v d' => v = d.get slot ∧ d' = d) d :=
  calmly_map (calmly_access ⟨rfl, rfl⟩)

theorem calmly_readPlain :
    calmly (readPlain P key) (fun v d' => v = d.get ⟨.general, key⟩ ∧ d' = d) d := calmly_readSlot

theorem calmly_readAll {operation : CodeUnits} {service : Service} :
    calmly (readAll P operation service) (fun _ d' => d' = d) d :=
  calmly_map (calmly_mono (fun _ _ h => h.2) calmly_runStorageOperation)

theorem calmly_writeSlot {operation : CodeUnits} :
    calmly (writeSlot P operation slot value) (fun _ d' => d' = d.put slot value) d :=
  calmly_mono (fun _ _ h => h.2) calmly_runStorageOperation

theorem calmly_checkSessionGeneration {generation : ℕ}
    (h : d.isSessionGenerationCurrent P generation) :
    calmly (checkSessionGeneration P generation) (fun _ d' => d' = d) d :=
  calmly_bind (calmly_device (calmly_require h rfl))

/-! ## Recovery -/

theorem calmly_writeRotatedPasswordState {rotation : PasswordRotationRecord} :
    calmly (writeRotatedPasswordState P rotation) (fun _ _ => True) d := by
  refine calmly_bind (calmly_forM (fun _ _ => True) _ trivial (fun _ _ _ _ _ _ => ?_)
    fun d₁ _ => ?_)
  · exact calmly_bind (calmly_mono (fun _ _ _ => calmly_pure trivial) calmly_writeSlot)
  · refine calmly_bind (calmly_mono (fun _ d₂ _ => ?_) calmly_writeSlot)
    exact calmly_bind (calmly_mono (fun _ _ _ => calmly_pure trivial) calmly_writeSlot)

theorem calmly_deleteRotationRecordBestEffort {left : List CodeUnits → List CodeUnits} :
    calmly (deleteRotationRecordBestEffort P left) (fun _ d' => d'.get rotationSlot = none) d := by
  refine calmly_rescue (calmly_bind (calmly_mono ?_ calmly_runStorageOperation))
  rintro before d₁ ⟨-, rfl⟩
  exact calmly_pure (Device.get_remove.trans (if_pos rfl))

/-- The recorded change of a store, and the store that it ends in. -/
structure Completed (P : Packages Double) (d : Device) (new : CodeUnits) (d' : Device) : Prop where
  changed : Changed P d new d'
  record : d'.get rotationSlot = none
  passwords : d'.passwords = [new]
  session : d'.sessionPassword = none

theorem calmly_recover (hP : P.Faithful) (hsound : d.Sound P) {rotation : PasswordRotationRecord}
    {old new : CodeUnits} (hpending : d.Pending P rotation old new)
    (hsession : d.sessionPassword = none) :
    calmly (recoverInterruptedPasswordRotation P) (fun _ d' => Completed P d new d') d := by
  obtain ⟨raw, hraw, hne, hmarked, hparse⟩ := hpending.record
  refine calmly_bind (calmly_mono ?_ calmly_readPlain)
  rintro - d₁ ⟨rfl, rfl⟩
  rw [hraw, present_eq_some.2 ⟨rfl, hne⟩]
  dsimp only
  rw [hmarked, hparse]
  have hrotating := hpending.rotating hsound hsession
  refine calmly_bind (calmly_mono ?_ (calmly_and (writeRotatedPasswordState_spec hP hrotating)
    calmly_writeRotatedPasswordState))
  rintro - d₂ ⟨⟨h₂, hunder, haccepts⟩, -⟩
  have hclosed : ∀ password ∈ d₂.sessionPassword, password = new := by
    intro password hpassword
    rw [show d₂.sessionPassword = none from h₂.session] at hpassword
    cases hpassword
  refine calmly_bind (calmly_mono ?_ (calmly_and (deleteRotationRecordBestEffort_spec h₂ hunder
    haccepts hclosed (by simp) rfl) calmly_deleteRotationRecordBestEffort))
  rintro - d₃ ⟨h₃, hrecord⟩
  refine calmly_change ⟨⟨h₃.sound.lock, h₃.saved, h₃.under, h₃.accepts⟩, hrecord, ?_, rfl⟩
  obtain hpasswords | hpasswords := h₃.passwords
  · exact hpasswords
  · have hold : old ∈ d₃.passwords := hpasswords ▸ List.mem_cons_self
    rw [((h₃.sound.settled hrecord).accepts hold).1] at hpasswords
    cases hpasswords

/-- After a restart, a recorded change of the password ends in the new one, with all secrets. -/
theorem recovery_completes (hP : P.Faithful) (h : (system P entries).Reaches (Admissible P) d)
    (hrecord : ¬ d.Quiet P) :
    ∃ old new, d.passwords = [old, new] ∧ calmly (perform P .boot) (fun _ d' =>
      d'.get rotationSlot = none ∧ d'.passwords = [new] ∧ d'.Accepts P new ∧ d'.saved = d.saved ∧
      d'.Readable P new) d := by
  have hsound := sound_reached hP h
  obtain hsettled | ⟨rotation, old, new, hpending⟩ | hfailed := hsound.state
  · refine absurd (fun raw hraw => ?_) hrecord
    rw [hsettled.record] at hraw
    cases hraw
  · refine ⟨old, new, hpending.passwords, calmly_bind (calmly_change ?_)⟩
    have hagree : Agree d d.restart := ⟨rfl, rfl, rfl, rfl, rfl⟩
    refine calmly_mono (fun _ d' h => ?_) (calmly_recover hP hsound.restart
      (hagree.pending (fun _ _ h => h) hpending) rfl)
    exact ⟨h.record, h.passwords, h.changed.accepts, h.changed.saved,
      h.changed.sound.readable h.changed.under⟩
  · obtain ⟨raw, hraw, hmarked⟩ := hfailed.record
    refine absurd (fun raw' hraw' => ?_) hrecord
    obtain rfl := Option.some.inj (hraw.symm.trans hraw')
    exact hmarked

theorem sampleCut_not_quiet :
    ¬ (step samplePackages sampleDevice sampleCut).Quiet samplePackages := by
  intro hquiet
  obtain ⟨raw, hraw, hmarked⟩ : ∃ raw,
      (step samplePackages sampleDevice sampleCut).get rotationSlot = some raw ∧
        isRollbackFailedRotationRecord samplePackages raw = false := ⟨_, rfl, rfl⟩
  rw [hquiet raw hraw] at hmarked
  cases hmarked

theorem recovery_completes_sample : ∃ old new,
    (step samplePackages sampleDevice sampleCut).passwords = [old, new] ∧
      calmly (perform samplePackages .boot) (fun _ d' =>
        d'.get rotationSlot = none ∧ d'.passwords = [new] ∧ d'.Accepts samplePackages new ∧
        d'.saved = (step samplePackages sampleDevice sampleCut).saved ∧
        d'.Readable samplePackages new) (step samplePackages sampleDevice sampleCut) :=
  recovery_completes samplePackages_faithful sampleCut_reached sampleCut_not_quiet

/-! ## Unlocking -/

theorem isSessionGenerationCurrent_self : d.isSessionGenerationCurrent P d.sessionGeneration := by
  simp [Device.isSessionGenerationCurrent]

/-- The generation of the session has not changed. -/
theorem calmly_checkCurrent {α : Type} {next : Unit → Eff α} {ok : α → Device → Prop}
    (h : calmly (next ()) ok d) :
    calmly (checkSessionGeneration P d.sessionGeneration >>= next) ok d := by
  refine calmly_bind (calmly_mono ?_
    (calmly_checkSessionGeneration isSessionGenerationCurrent_self))
  rintro - d₁ rfl
  exact h

/-- The accepted password passes the check. -/
theorem calmly_verifyPasswordOnly (hvalid : isWalletPasswordValid P password)
    (haccepts : d.Accepts P password) :
    calmly (verifyPasswordOnly P password) (fun isMatch d' => isMatch = true ∧ d' = d) d := by
  obtain ⟨salt, verifier, hsalt, hverifier, hderive⟩ := haccepts
  refine calmly_bind (calmly_device ?_)
  rw [if_neg (not_not_intro hvalid)]
  refine calmly_bind (calmly_mono ?_ calmly_readPlain)
  rintro - d₁ ⟨rfl, rfl⟩
  refine calmly_checkCurrent ?_
  refine calmly_bind (calmly_mono ?_ calmly_readPlain)
  rintro - d₃ ⟨rfl, rfl⟩
  refine calmly_checkCurrent ?_
  rw [hsalt, hverifier]
  refine calmly_bind (calmly_outcome (mapError_eq_ok.2 hderive) ?_)
  refine calmly_checkCurrent ?_
  exact calmly_pure ⟨decide_eq_true rfl, rfl⟩

/-- The session is the same. -/
def SameSession (d d' : Device) : Prop :=
  d'.sessionGeneration = d.sessionGeneration ∧ d'.sessionPassword = d.sessionPassword

theorem calmly_migrateAccountMnemonic {entry : CodeUnits × CodeUnits}
    {result : AccountMnemonicMigrationResult} (havailable : result.mnemonicsAvailable = true) :
    calmly (migrateAccountMnemonic P entry result)
      (fun result' d' => result'.mnemonicsAvailable = true ∧ SameSession d d') d := by
  have hremove {d' : Device} (hsame : SameSession d d') : calmly (do
      let removed ← rescue (do
          let _ ← deleteSlot P (named "delete legacy account mnemonic" entry.1) ⟨.general, entry.1⟩
          return true)
        fun _ => return false
      return { result with legacyCleanupComplete := result.legacyCleanupComplete && removed })
      (fun result' d' => result'.mnemonicsAvailable = true ∧ SameSession d d') d' := by
    refine calmly_bind (calmly_rescue (calmly_bind (calmly_mono ?_ calmly_runStorageOperation)))
    rintro - d'' ⟨-, rfl⟩
    exact calmly_pure (calmly_pure ⟨havailable, hsame⟩)
  refine calmly_bind (calmly_rescue (calmly_bind (calmly_mono ?_ calmly_readSlot)))
  rintro existing d₁ ⟨rfl, rfl⟩
  split_ifs
  · refine calmly_bind (calmly_mono ?_ calmly_writeSlot)
    rintro - d₂ rfl
    exact calmly_pure (hremove ⟨rfl, rfl⟩)
  · exact calmly_pure (hremove ⟨rfl, rfl⟩)

theorem calmly_migrateAccountMnemonics {entries : List (CodeUnits × CodeUnits)}
    {result : AccountMnemonicMigrationResult} (havailable : result.mnemonicsAvailable = true) :
    calmly (migrateAccountMnemonics P entries result)
      (fun result' d' => result'.mnemonicsAvailable = true ∧ SameSession d d') d := by
  induction entries generalizing d result with
  | nil => exact calmly_pure ⟨havailable, rfl, rfl⟩
  | cons entry entries ih =>
    refine calmly_bind (calmly_mono ?_ (calmly_migrateAccountMnemonic havailable))
    rintro result' d₁ ⟨havailable', hgeneration, hsession⟩
    refine calmly_mono ?_ (ih havailable')
    rintro result'' d₂ ⟨havailable'', hgeneration', hsession'⟩
    exact ⟨havailable'', hgeneration'.trans hgeneration, hsession'.trans hsession⟩

/-- Moving mnemonics succeeds. -/
theorem calmly_migrateAccountMnemonicsAfterUnlock :
    calmly (migrateAccountMnemonicsAfterUnlock P)
      (fun result' d' => result'.mnemonicsAvailable = true ∧ SameSession d d') d := by
  unfold migrateAccountMnemonicsAfterUnlock
  split_ifs
  · refine calmly_bind (calmly_mono ?_ calmly_readPlain)
    rintro - d₁ ⟨-, rfl⟩
    split_ifs
    · exact calmly_pure ⟨rfl, rfl, rfl⟩
    refine calmly_bind (calmly_mono ?_ calmly_readAll)
    rintro values d₂ rfl
    refine calmly_bind (calmly_mono ?_ (calmly_migrateAccountMnemonics rfl))
    rintro result d₃ ⟨havailable, hsame⟩
    split_ifs
    · refine calmly_bind (calmly_rescue (calmly_bind (calmly_mono ?_ calmly_writeSlot)))
      rintro - d₄ rfl
      exact calmly_pure (calmly_pure ⟨havailable, hsame⟩)
    · exact calmly_pure ⟨havailable, hsame⟩
  · exact calmly_pure ⟨rfl, rfl, rfl⟩

/-- A sound store whose session is open, with the secrets and the record that there were. -/
structure Unlocked (P : Packages Double) (d : Device) (password : CodeUnits) (d' : Device) :
    Prop where
  sound : d'.Sound P
  session : d'.sessionPassword = some password
  saved : d'.saved = d.saved
  record : d'.get rotationSlot = d.get rotationSlot

theorem calmly_attemptUnlock (hsound : d.Sound P) (hpassword : password ∈ d.passwords)
    (haccepts : d.Accepts P password) :
    calmly (attemptUnlock P password)
      (fun isMatch d' => isMatch = true ∧ Unlocked P d password d') d := by
  refine calmly_bind (calmly_device ?_)
  refine calmly_bind (calmly_mono ?_
    (calmly_verifyPasswordOnly (hsound.valid password hpassword) haccepts))
  rintro - d₁ ⟨rfl, rfl⟩
  refine calmly_checkCurrent ?_
  have hopened : ({ d₁ with sessionPassword := some password } : Device).Sound P :=
    hsound.session_change rfl rfl rfl fun password' h => Option.mem_some.1 h ▸ hpassword
  refine calmly_bind (calmly_change (calmly_rescue (calmly_bind (calmly_mono ?_
    (calmly_and migrateAccountMnemonicsAfterUnlock_spec
      calmly_migrateAccountMnemonicsAfterUnlock)))))
  rintro migration d₃ ⟨hkept, havailable, hgeneration, hsession⟩
  refine calmly_bind (calmly_mono ?_ (calmly_checkSessionGeneration ?_))
  · rintro - d₄ rfl
    rw [if_neg (not_not_intro havailable)]
    exact calmly_pure ⟨rfl, hkept.sound hopened, hsession, hkept.saved, hkept.record⟩
  · rw [Device.isSessionGenerationCurrent, hgeneration]
    exact isSessionGenerationCurrent_self

/-- The accepted password opens the session. -/
theorem calmly_verifyPassword (hsound : d.Sound P) (hpassword : password ∈ d.passwords)
    (haccepts : d.Accepts P password) :
    calmly (verifyPassword P password)
      (fun isMatch d' => isMatch = true ∧ Unlocked P d password d') d := by
  unfold verifyPassword
  split_ifs
  · have hagree : Agree d (d.clearSessionPassword P) := ⟨rfl, rfl, rfl, rfl, rfl⟩
    refine calmly_bind (calmly_change (calmly_mono ?_ (calmly_attemptUnlock hsound.lock hpassword
      (hagree.accepts.2 haccepts))))
    exact fun _ _ h => ⟨h.1, h.2.sound, h.2.session, h.2.saved, h.2.record⟩
  · exact calmly_attemptUnlock hsound hpassword haccepts

/-! ## Reading -/

/-- The salt is read. -/
theorem calmly_getOrCreateSaltBase64 (hsalt : d.salt ≠ []) :
    calmly (getOrCreateSaltBase64 P (some d.sessionGeneration))
      (fun salt d' => salt = d.salt ∧ d' = d) d := by
  refine calmly_bind (calmly_mono ?_ calmly_readPlain)
  rintro - d₁ ⟨rfl, rfl⟩
  refine calmly_checkCurrent ?_
  cases hpresent : present (d₁.get saltSlot) with
  | none =>
    rw [Device.salt, hpresent] at hsalt
    exact absurd rfl hsalt
  | some salt => exact calmly_pure ⟨by rw [Device.salt, hpresent, Option.getD_some], rfl⟩

/-- With an open session, what is read is what was stored. -/
theorem calmly_readAccountMnemonicBytes (hP : P.Faithful) {accountUuid : CodeUnits}
    {requireUnlockedSession : Bool} (hsound : d.Sound P) (hsettled : d.Settled P)
    (hsession : d.sessionPassword = some password)
    (hplain : plain ∈ d.saved ⟨mnemonicService P, accountMnemonicKey accountUuid⟩) :
    calmly (readAccountMnemonicBytes P accountUuid requireUnlockedSession)
      (fun secret _ => secret = some plain) d := by
  have hlocked : ¬ (requireUnlockedSession = true ∧ d.sessionPassword.isNone = true) := by
    rw [hsession]
    simp
  obtain ⟨value, hget, known, hknown, hopens⟩ :=
    hsound.opens_get (managed_accountMnemonicKey accountUuid) hplain
  have hpassword := hsound.session password hsession
  rw [(hsettled.accepts hknown).1, List.mem_singleton] at hpassword
  subst hpassword
  have hsalt := hsound.salt _ (Option.isSome_iff_exists.2 ⟨plain, hplain⟩)
  refine calmly_bind (calmly_device ?_)
  refine calmly_checkCurrent ?_
  refine calmly_bind (calmly_device ?_)
  rw [if_neg hlocked]
  refine calmly_bind (calmly_mono ?_ calmly_readSlot)
  rintro - d₂ ⟨rfl, rfl⟩
  rw [hget]
  refine calmly_checkCurrent ?_
  refine calmly_bind (calmly_device ?_)
  rw [if_neg hlocked]
  refine calmly_bind (calmly_bind (calmly_device (calmly_outcome (orError_eq_ok.2 hsession) ?_)))
  rw [present_eq_some.2 ⟨rfl, ne_nil_of_decrypt hP hopens⟩]
  dsimp only
  rw [if_neg (not_not_intro (isEncryptedPayload_of_decrypt hopens))]
  refine calmly_bind (calmly_mono ?_ (calmly_getOrCreateSaltBase64 hsalt))
  rintro - d₄ ⟨rfl, rfl⟩
  refine calmly_checkCurrent ?_
  refine calmly_bind (calmly_device (calmly_bind (calmly_outcome (orError_eq_ok.2 hsession) ?_)))
  refine calmly_bind (calmly_outcome (mapError_eq_ok.2 hopens) ?_)
  refine calmly_checkCurrent ?_
  exact calmly_pure rfl

/-- When no change of the password is recorded, unlocking with the wallet password and reading a
mnemonic give back what was stored. -/
theorem mnemonic_read (hP : P.Faithful) {accountUuid : CodeUnits}
    (h : (system P entries).Reaches (Admissible P) d) (hrecord : d.get rotationSlot = none)
    (hpassword : password ∈ d.passwords)
    (hplain : d.saved ⟨mnemonicService P, accountMnemonicKey accountUuid⟩ = some plain) :
    calmly (do
        let isMatch ← verifyPassword P password
        let secret ← readAccountMnemonicBytes P accountUuid true
        return (isMatch, secret))
      (fun result _ => result = (true, some plain)) d := by
  have hsound := sound_reached hP h
  refine calmly_bind (calmly_mono ?_ (calmly_verifyPassword hsound hpassword
    ((hsound.settled hrecord).accepts hpassword).2))
  rintro isMatch d₁ ⟨rfl, hunlocked⟩
  refine calmly_bind (calmly_mono ?_ (calmly_readAccountMnemonicBytes hP hunlocked.sound
    (hunlocked.sound.settled (hunlocked.record.trans hrecord)) hunlocked.session
    (hunlocked.saved ▸ hplain)))
  rintro secret d₂ rfl
  exact calmly_pure rfl

theorem mnemonic_read_sample : calmly (do
      let isMatch ← verifyPassword samplePackages (literal "old")
      let secret ← readAccountMnemonicBytes samplePackages (literal "u") true
      return (isMatch, secret))
    (fun result _ => result = (true, some (toBytes (literal "words")))) sampleDevice :=
  mnemonic_read samplePackages_faithful sampleDevice_reached rfl
    (List.mem_singleton_self (literal "old")) rfl

end VizorWallet.SecureStore
