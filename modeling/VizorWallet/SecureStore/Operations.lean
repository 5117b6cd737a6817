import VizorWallet.SecureStore.Sound

/-!
# What the operations of the store keep

Whatever happens at its accesses, an operation that stores no secret keeps a store sound, with its
secrets and their salt, its passwords and its verifier.

## Main definitions

* `Kept` — what an operation keeps that stores no secret.
* `Device.Fresh` — a sound store that has no password yet.

## Main results

* `verifyPasswordOnly_spec` — a password is accepted when the verifier is its own.
* `getOrCreateSaltBase64_spec` — the salt is stored once.
* `migrateAccountMnemonicsAfterUnlock_spec` — moving mnemonics keeps a store.
* `configurePassword_spec`, `verifyPassword_spec` — the first password and unlocking.
-/

namespace VizorWallet.SecureStore

open CodeUnits PaymentLink Effect

variable {Double : Type} {P : Packages Double} {d d' d'' : Device} {slot : Slot}
  {key value password : CodeUnits} {α : Type}

/-! ## Accesses -/

theorem always_raise {ok : α → Device → Prop} {fail : Interrupt StoreError → Device → Prop}
    {error : StoreError} (h : fail (.thrown error) d) :
    always (ι := Interference) (raise error) ok fail d := always_throw h

theorem readSlot_spec {operation : CodeUnits} :
    always (readSlot P operation slot) (fun v d' => v = d'.get slot ∧ Only d d')
      (fun _ d' => Only d d') d := by
  refine always_map (always_access ⟨rfl, .refl⟩ (fun i => ⟨rfl, .act i⟩) (fun _ => .refl) ?_)
  exact fun _ => .refl

theorem readPlain_spec :
    always (readPlain P key) (fun v d' => v = d'.get ⟨.general, key⟩ ∧ Only d d')
      (fun _ d' => Only d d') d := readSlot_spec

theorem readAll_spec {operation : CodeUnits} {service : Service} :
    always (readAll P operation service) (fun v d' => v = d'.readAll service ∧ Only d d')
      (fun _ d' => Only d d') d := by
  refine always_map (always_access ⟨rfl, .refl⟩ (fun i => ⟨rfl, .act i⟩) (fun _ => .refl) ?_)
  exact fun _ => .refl

/-- A change of the entries takes place or not, after waiting. -/
theorem runStorageOperation_spec {operation : CodeUnits} {f : Device → Device}
    {ok fail : Device → Prop} (hok : ∀ d', Only d d' → ok (f d')) (hland : fail (f d))
    (hfail : fail d) :
    always (runStorageOperation P operation f) (fun _ d' => ok d') (fun _ d' => fail d') d :=
  always_access (hok d .refl) (fun i => hok _ (.act i)) (fun _ => hfail) fun _ => hland

theorem writeSlot_spec {operation : CodeUnits} {ok fail : Device → Prop}
    (hok : ∀ d', Only d d' → ok (d'.put slot value)) (hland : fail (d.put slot value))
    (hfail : fail d) :
    always (writeSlot P operation slot value) (fun _ d' => ok d') (fun _ d' => fail d') d :=
  runStorageOperation_spec hok hland hfail

theorem writePlain_spec {ok fail : Device → Prop}
    (hok : ∀ d', Only d d' → ok (d'.put ⟨.general, key⟩ value))
    (hland : fail (d.put ⟨.general, key⟩ value)) (hfail : fail d) :
    always (writePlain P key value) (fun _ d' => ok d') (fun _ d' => fail d') d :=
  runStorageOperation_spec hok hland hfail

theorem deleteSlot_spec {operation : CodeUnits} {ok fail : Device → Prop}
    (hok : ∀ d', Only d d' → ok (d'.remove slot)) (hland : fail (d.remove slot)) (hfail : fail d) :
    always (deleteSlot P operation slot) (fun _ d' => ok d') (fun _ d' => fail d') d :=
  runStorageOperation_spec hok hland hfail

theorem checkSessionGeneration_spec {generation : ℕ} :
    always (checkSessionGeneration P generation) (fun _ d' => d' = d)
      (fun e d' => (∃ error, e = .thrown error) ∧ d' = d) d :=
  always_bind (always_device (always_require (fun _ => rfl) fun _ => ⟨⟨_, rfl⟩, rfl⟩))

/-- A change of the entries that checks the session takes place or not, after waiting. -/
theorem runCheckedStorageOperation_spec {operation : CodeUnits} {generation : ℕ}
    {f : Device → Device} {I : Device → Prop} (honly : ∀ d', Only d d' → I d')
    (hok : ∀ d', Only d d' → I (f d')) :
    always (runCheckedStorageOperation P operation generation f) (fun _ d' => I d')
      (fun _ d' => I d') d := by
  have hwait : always (runStorageOperation P operation id) (fun _ d' => Only d d')
      (fun _ d' => Only d d') d := runStorageOperation_spec (fun _ h => h) .refl .refl
  refine always_then hwait ?_ fun _ d' h => honly d' h
  intro _ d₁ h₁
  refine always_then checkSessionGeneration_spec ?_ fun _ _ h => h.2 ▸ honly d₁ h₁
  rintro - d₂ rfl
  exact runStorageOperation_spec (fun d' h => hok d' (h₁.trans h)) (hok d₂ h₁) (honly d₂ h₁)

theorem randomBytes_spec {length : ℕ} {fail : Interrupt StoreError → Device → Prop} :
    always (ι := Interference) (randomBytes length)
      (fun bytes d' => bytes.length = length ∧ Only d d') fail d := by
  refine always_bind (always_device (always_bind (always_change (always_pure ⟨?_, ?_⟩))))
  · rw [List.length_take, List.length_append, List.length_replicate]
    exact Nat.min_eq_left (Nat.le_add_left _ _)
  · exact ⟨rfl, rfl, rfl, fun _ h => h, rfl, fun _ => .inl rfl⟩

/-! ## What is kept -/

/-- What an operation keeps that stores no secret. -/
structure Kept (P : Packages Double) (d d' : Device) : Prop where
  saved : d'.saved = d.saved
  passwords : d'.passwords = d.passwords
  salt : d.salt ≠ [] → d'.salt = d.salt
  verifierSalt : d'.get verifierSaltSlot = d.get verifierSaltSlot
  verifier : d'.get verifierSlot = d.get verifierSlot
  record : d'.get rotationSlot = d.get rotationSlot
  session : ∀ password ∈ d'.sessionPassword, password ∈ d.sessionPassword
  owned : ∀ generation, d.Owned P generation → d'.Owned P generation
  sound : d.Sound P → d'.Sound P

namespace Kept

theorem trans (h : Kept P d d') (h' : Kept P d' d'') : Kept P d d'' where
  saved := h'.saved.trans h.saved
  passwords := h'.passwords.trans h.passwords
  salt hsalt := (h'.salt (h.salt hsalt ▸ hsalt)).trans (h.salt hsalt)
  verifierSalt := h'.verifierSalt.trans h.verifierSalt
  verifier := h'.verifier.trans h.verifier
  record := h'.record.trans h.record
  session password hpassword := h.session password (h'.session password hpassword)
  owned generation howned := h'.owned generation (h.owned generation howned)
  sound hsound := h'.sound (h.sound hsound)

theorem accepts (h : Kept P d d') : d'.Accepts P password ↔ d.Accepts P password := by
  rw [Device.Accepts, h.verifierSalt, h.verifier, Device.Accepts]

end Kept

theorem Only.kept (h : Only d d') : Kept P d d' where
  saved := h.saved
  passwords := h.passwords
  salt _ := h.agree.salt_eq
  verifierSalt := h.get
  verifier := h.get
  record := h.get
  session := h.session
  owned _ := h.owned
  sound hsound := hsound.only h

theorem Kept.refl : Kept P d d := Only.refl.kept

/-- An entry is stored that no secret depends on. -/
theorem kept_put (hstate : ∀ key ∈ stateKeys, slot ≠ ⟨.general, key⟩)
    (hsecret : d.Sound P → Managed P slot → d.saved slot = none) :
    Kept P d (d.put slot value) := by
  have hagree : Agree d (d.put slot value) := agree_put hstate
  refine ⟨rfl, rfl, fun _ => hagree.salt_eq, hagree.verifierSalt, hagree.verifier, hagree.record,
    fun _ h => h, fun _ h => ⟨h.1, h.2⟩, fun hsound => ?_⟩
  refine ⟨fun slot' hsaved => hagree.salt_eq ▸ hsound.salt slot' hsaved, ?_, ?_, hsound.session,
    hsound.valid, hagree.state (fun _ _ h => h) hsound.state⟩
  · intro slot' hmanaged hsaved
    obtain ⟨value', hmem⟩ := hsound.stored slot' hmanaged hsaved
    by_cases hslot : slot' = slot
    · exact ⟨value, List.mem_cons.2 (.inl (by rw [hslot]))⟩
    · exact ⟨value', Device.mem_put_of_ne hslot hmem⟩
  · intro slot' hmanaged plain hplain value' hmem
    obtain ⟨rfl, -⟩ | ⟨-, hold⟩ := Device.mem_put hmem
    · rw [Option.mem_def, show (d.put slot' value).saved = d.saved from rfl,
        hsecret hsound hmanaged] at hplain
      cases hplain
    · rw [hagree.salt_eq]
      exact hsound.opens slot' hmanaged plain hplain value' hold

/-- An entry is removed that no secret depends on. -/
theorem kept_remove (hstate : ∀ key ∈ stateKeys, slot ≠ ⟨.general, key⟩)
    (hsecret : ¬ Managed P slot) : Kept P d (d.remove slot) := by
  have hagree : Agree d (d.remove slot) := agree_remove hstate
  refine ⟨rfl, rfl, fun _ => hagree.salt_eq, hagree.verifierSalt, hagree.verifier, hagree.record,
    fun _ h => h, fun _ h => ⟨h.1, h.2⟩, fun hsound => ?_⟩
  refine ⟨fun slot' hsaved => hagree.salt_eq ▸ hsound.salt slot' hsaved, ?_, ?_, hsound.session,
    hsound.valid, hagree.state (fun _ _ h => h) hsound.state⟩
  · intro slot' hmanaged hsaved
    obtain ⟨value', hmem⟩ := hsound.stored slot' hmanaged hsaved
    refine ⟨value', Device.mem_remove.2 ⟨hmem, ?_⟩⟩
    rintro rfl
    exact hsecret hmanaged
  · intro slot' hmanaged plain hplain value' hmem
    rw [hagree.salt_eq]
    exact hsound.opens slot' hmanaged plain hplain value' (Device.mem_remove.1 hmem).1

/-- The first salt is stored. -/
theorem kept_put_salt (h : d.salt = []) : Kept P d (d.put saltSlot value) := by
  have hget {key : CodeUnits} (hne : key ≠ secureStoreSaltKey) :
      (d.put saltSlot value).get ⟨.general, key⟩ = d.get ⟨.general, key⟩ := get_put_of_key hne
  have hsaved (hsound : d.Sound P) (slot : Slot) : d.saved slot = none := by
    by_contra hne
    exact hsound.salt slot (Option.isSome_iff_ne_none.2 hne) h
  refine ⟨rfl, rfl, fun hne => absurd h hne, hget (by decide), hget (by decide), hget (by decide),
    fun _ h => h, fun _ h => ⟨h.1, h.2⟩, fun hsound => ?_⟩
  have hnone (slot : Slot) : (d.put saltSlot value).saved slot = none := hsaved hsound slot
  refine ⟨?_, ?_, ?_, hsound.session, hsound.valid, ?_⟩
  · intro slot hsome
    rw [hnone] at hsome
    cases hsome
  · intro slot _ hsome
    rw [hnone] at hsome
    cases hsome
  · intro slot _ plain hplain
    rw [hnone] at hplain
    cases hplain
  · have hconfigured : (d.put saltSlot value).Configured ↔ d.Configured := by
      rw [Device.Configured, hget (by decide), hget (by decide), Device.Configured]
    obtain hsettled | ⟨rotation, old, new, hpending⟩ | hfailed := hsound.state
    · refine .inl ⟨(hget (by decide)).trans hsettled.record, ?_⟩
      rw [hget (by decide)]
      refine hsettled.password.imp_right fun hpassword => ?_
      obtain ⟨password, hpasswords, salt, verifier, haccepts⟩ := hpassword
      refine ⟨password, hpasswords, salt, verifier, ?_⟩
      rwa [hget (by decide), hget (by decide)]
    · obtain ⟨hverifierSalt, hverifier, ⟨hmanaged, hentry, -⟩⟩ := hpending.covers
      refine .inr (.inl ⟨rotation, old, new, hpending.passwords, ?_, ?_, hconfigured.2
        hpending.configured⟩)
      · rw [hget (by decide)]
        exact hpending.record
      · refine ⟨hverifierSalt, hverifier, ⟨hmanaged, hentry, fun e _ plain hplain => ?_⟩⟩
        rw [hnone] at hplain
        cases hplain
    · refine .inr (.inr ⟨hfailed.passwords, ?_, hconfigured.2 hfailed.configured⟩)
      rw [hget (by decide)]
      exact hfailed.record

theorem present_eq_some {text : Option CodeUnits} :
    present text = some value ↔ text = some value ∧ value ≠ [] := by
  simp [present, Option.filter_eq_some_iff]

theorem salt_put (hvalue : value ≠ []) : (d.put saltSlot value).salt = value := by
  rw [Device.salt, Device.get_put_self, present_eq_some.2 ⟨rfl, hvalue⟩, Option.getD_some]

theorem getOrCreateSaltBase64_spec (hP : P.Faithful) {generation : Option ℕ} :
    always (getOrCreateSaltBase64 P generation)
      (fun salt d' => Kept P d d' ∧ d'.salt = salt ∧ salt ≠ []) (fun _ d' => Kept P d d') d := by
  have hcheck {d : Device} : always (generation.forM (checkSessionGeneration P))
      (fun _ d' => d' = d) (fun _ d' => d' = d) d := by
    cases generation with
    | none => exact always_pure rfl
    | some generation =>
      exact always_mono (fun _ _ h => h) (fun _ _ h => h.2) checkSessionGeneration_spec
  refine always_then readPlain_spec ?_ fun _ _ h => h.kept
  rintro encoded d₁ ⟨rfl, honly⟩
  refine always_then hcheck ?_ fun _ _ h => h ▸ honly.kept
  rintro - d₂ rfl
  cases hpresent : present (d₂.get saltSlot) with
  | some encoded =>
    refine always_pure ⟨honly.kept, ?_, (present_eq_some.1 hpresent).2⟩
    rw [Device.salt, hpresent, Option.getD_some]
  | none =>
    have hsalt {d' : Device} (h : Only d₂ d') : d'.salt = [] := by
      rw [h.agree.salt_eq, Device.salt, hpresent, Option.getD_none]
    refine always_then randomBytes_spec (fun bytes d₃ hbytes => ?_) fun _ _ h => h
    obtain ⟨hlength, honly₃⟩ := hbytes
    have hne : P.base64Encode bytes ≠ [] :=
      hP.base64Encode_ne_nil (List.ne_nil_of_length_pos (hlength ▸ Nat.succ_pos 15))
    have hkept {d' : Device} (h : Only d₃ d') :
        Kept P d (d'.put saltSlot (P.base64Encode bytes)) :=
      (honly.trans (honly₃.trans h)).kept.trans (kept_put_salt (hsalt (honly₃.trans h)))
    have hwrite : always (writePlain P secureStoreSaltKey (P.base64Encode bytes))
        (fun _ d' => Kept P d d' ∧ d'.salt = P.base64Encode bytes) (fun _ d' => Kept P d d') d₃ :=
      writePlain_spec (fun d' h => ⟨hkept h, salt_put hne⟩) (hkept .refl) (honly.trans honly₃).kept
    refine always_then hwrite (fun _ d₄ hput => ?_) fun _ _ h => h
    refine always_then hcheck ?_ fun _ _ h => h ▸ hput.1
    rintro - d₅ rfl
    exact always_pure ⟨hput.1, hput.2, hne⟩

/-! ## Passwords -/

/-- A password is accepted when the verifier is its own. -/
theorem verifyPasswordOnly_spec :
    always (verifyPasswordOnly P password)
      (fun isMatch d' => Only d d' ∧ (isMatch = true → d'.Accepts P password))
      (fun _ d' => Only d d') d := by
  have hcheck {d : Device} {generation : ℕ} : always (checkSessionGeneration P generation)
      (fun _ d' => d' = d) (fun _ d' => d' = d) d :=
    always_mono (fun _ _ h => h) (fun _ _ h => h.2) checkSessionGeneration_spec
  refine always_bind (always_device ?_)
  by_cases hvalid : isWalletPasswordValid P password
  swap
  · rw [if_pos hvalid]
    exact always_pure ⟨.refl, fun h => by cases h⟩
  rw [if_neg (not_not_intro hvalid)]
  refine always_then readPlain_spec ?_ fun _ _ h => h
  rintro encodedSalt d₁ ⟨rfl, honly₁⟩
  refine always_then hcheck ?_ fun _ _ h => h ▸ honly₁
  rintro - d₂ rfl
  refine always_then readPlain_spec ?_ fun _ _ h => honly₁.trans h
  rintro storedVerifier d₃ ⟨rfl, honly₃⟩
  have honly := honly₁.trans honly₃
  refine always_then hcheck ?_ fun _ _ h => h ▸ honly
  rintro - d₄ rfl
  cases hsalt : present (d₂.get verifierSaltSlot) with
  | none => exact always_pure ⟨honly, fun h => by cases h⟩
  | some salt =>
    cases hverifier : present (d₄.get verifierSlot) with
    | none => exact always_pure ⟨honly, fun h => by cases h⟩
    | some verifier =>
      refine always_bind (always_outcome (fun derived hderived => ?_) fun _ _ => honly)
      refine always_then hcheck ?_ fun _ _ h => h ▸ honly
      rintro - d₅ rfl
      refine always_pure ⟨honly, fun hmatch => ⟨salt, verifier, ?_, hverifier, ?_⟩⟩
      · rwa [honly₃.get]
      · rw [← of_decide_eq_true hmatch]
        exact mapError_eq_ok.1 hderived

theorem session_setSessionPassword :
    (d.setSessionPassword P password).sessionPassword = some password := rfl

/-- The session is opened or closed. -/
theorem Device.Sound.session_change (hsound : d.Sound P) (hentries : d'.entries = d.entries)
    (hsaved : d'.saved = d.saved) (hpasswords : d'.passwords = d.passwords)
    (hsession : ∀ password ∈ d'.sessionPassword, password ∈ d.passwords) : d'.Sound P := by
  have hget {slot : Slot} : d'.get slot = d.get slot := by rw [Device.get, hentries, Device.get]
  have hagree : Agree d d' := ⟨hpasswords, hget, hget, hget, hget⟩
  refine SameSecrets.sound ⟨hsaved, hget, fun _ _ _ => by rw [hentries]⟩ hsound ?_ ?_ ?_ ?_
  · rw [hpasswords]
    exact hsound.opens
  · rwa [hpasswords]
  · rw [hpasswords]
    exact hsound.valid
  · exact hagree.state (fun _ _ h => hsaved ▸ h) hsound.state

/-- A sound store that has no password yet. -/
structure Device.Fresh (P : Packages Double) (d : Device) : Prop where
  sound : d.Sound P
  verifier : present (d.get verifierSlot) = none
  passwords : d.passwords = []

theorem fresh_of_unconfigured (hsound : d.Sound P) (hnone : present (d.get verifierSlot) = none) :
    d.Fresh P := by
  refine ⟨hsound, hnone, ?_⟩
  have hnot : ¬ d.Configured := fun h => by
    have hsome := h.2
    rw [hnone] at hsome
    cases hsome
  obtain hsettled | ⟨_, _, _, hpending⟩ | hfailed := hsound.state
  · obtain ⟨hpasswords, -⟩ | ⟨_, -, salt, verifier, -, hverifier, -⟩ := hsettled.password
    · exact hpasswords
    · rw [hnone] at hverifier
      cases hverifier
  · exact absurd hpending.configured hnot
  · exact absurd hfailed.configured hnot

namespace Device.Fresh

theorem record (h : d.Fresh P) : d.get rotationSlot = none := by
  obtain hsettled | ⟨_, _, _, hpending⟩ | hfailed := h.sound.state
  · exact hsettled.record
  · have hpasswords := hpending.passwords
    rw [h.passwords] at hpasswords
    cases hpasswords
  · obtain ⟨_, _, hpasswords⟩ := hfailed.passwords
    rw [h.passwords] at hpasswords
    cases hpasswords

/-- Nothing opens under no password, so nothing is stored. -/
theorem opens (h : d.Fresh P) {passwords : List CodeUnits} :
    ∀ slot, Managed P slot → ∀ plain ∈ d.saved slot, ∀ value, (slot, value) ∈ d.entries →
      ∃ password ∈ passwords, Opens P d.salt password value plain := by
  intro slot hmanaged plain hplain value hmem
  obtain ⟨password, hpassword, -⟩ := h.sound.opens slot hmanaged plain hplain value hmem
  rw [h.passwords] at hpassword
  cases hpassword

theorem only (h : d.Fresh P) (honly : Only d d') : d'.Fresh P := by
  refine ⟨h.sound.only honly, ?_, honly.passwords.trans h.passwords⟩
  rw [honly.get]
  exact h.verifier

theorem putSalt (h : d.Fresh P) : (d.put verifierSaltSlot value).Fresh P := by
  have hverifier : present ((d.put verifierSaltSlot value).get verifierSlot) = none := by
    rw [get_put_of_key (by decide)]
    exact h.verifier
  refine ⟨?_, hverifier, h.passwords⟩
  refine (sameSecrets_put (by decide) (by decide)).sound h.sound h.opens h.sound.session
    h.sound.valid ?_
  exact .inl ⟨(get_put_of_key (by decide)).trans h.record, .inl ⟨h.passwords, hverifier⟩⟩

/-- The verifier of the first password. -/
theorem putVerifier (h : d.Fresh P) {salt : CodeUnits} (hsalt : salt ≠ [])
    (hget : d.get verifierSaltSlot = some salt) (hvalue : value ≠ [])
    (hverifier : deriveSecretPasswordVerifier P password salt = .ok value)
    (hvalid : isWalletPasswordValid P password) :
    ((d.put verifierSlot value).known [password]).Sound P := by
  refine ((sameSecrets_put (by decide) (by decide)).known _).sound h.sound h.opens ?_ ?_
    (.inl ⟨?_, ?_⟩)
  · intro password' hsession
    have hmem := h.sound.session password' hsession
    rw [h.passwords] at hmem
    cases hmem
  · exact fun password' hpassword => List.mem_singleton.1 hpassword ▸ hvalid
  · exact (get_put_of_key (by decide)).trans h.record
  · refine .inr ⟨password, rfl, salt, value, ?_, ?_, hverifier⟩
    · exact present_eq_some.2 ⟨(get_put_of_key (by decide)).trans hget, hsalt⟩
    · exact present_eq_some.2 ⟨Device.get_put_self, hvalue⟩

end Device.Fresh

/-- Configuring the first password keeps a store sound. -/
theorem configurePassword_spec (hP : P.Faithful) (hsound : d.Sound P)
    (hnone : present (d.get verifierSlot) = none) :
    always (configurePassword P password) (fun _ d' => d'.Sound P) (fun _ d' => d'.Sound P) d := by
  have hfresh := fresh_of_unconfigured hsound hnone
  refine always_bind (always_device (always_bind (always_require (fun herror => ?_)
    fun _ => hsound)))
  have hvalid : isWalletPasswordValid P password := by rw [isWalletPasswordValid, herror]; rfl
  refine always_then randomBytes_spec ?_ fun _ _ h => h
  rintro bytes d₁ ⟨hlength, honly₁⟩
  have hfresh₁ := hfresh.only honly₁
  have hsalt : P.base64Encode bytes ≠ [] :=
    hP.base64Encode_ne_nil (List.ne_nil_of_length_pos (hlength ▸ Nat.succ_pos 15))
  refine always_bind (always_outcome (fun verifier hverifier => ?_) fun _ _ => hfresh₁.sound)
  rw [mapError_eq_ok] at hverifier
  have hne := deriveSecretPasswordVerifier_ne_nil hP hverifier
  refine always_then checkSessionGeneration_spec ?_ fun _ _ h => h.2 ▸ hfresh₁.sound
  rintro - d₂ rfl
  have hputSalt : always (writePlain P passwordVerifierSaltKey (P.base64Encode bytes))
      (fun _ d' => d'.Fresh P ∧ d'.get verifierSaltSlot = some (P.base64Encode bytes))
      (fun _ d' => d'.Sound P) d₂ :=
    writePlain_spec (fun d' h => ⟨(hfresh₁.only h).putSalt, Device.get_put_self⟩)
      hfresh₁.putSalt.sound hfresh₁.sound
  refine always_then hputSalt ?_ fun _ _ h => h
  rintro - d₃ ⟨hfresh₃, hget⟩
  have hputVerifier : always (runStorageOperation P (named "write" passwordVerifierKey) fun d =>
      (d.put ⟨.general, passwordVerifierKey⟩ verifier).known [password])
      (fun _ d' => d'.Sound P ∧ d'.passwords = [password]) (fun _ d' => d'.Sound P) d₃ :=
    runStorageOperation_spec (fun d' h => ⟨(hfresh₃.only h).putVerifier hsalt (h.get.trans hget) hne
      hverifier hvalid, rfl⟩) (hfresh₃.putVerifier hsalt hget hne hverifier hvalid) hfresh₃.sound
  refine always_then hputVerifier ?_ fun _ _ h => h
  rintro - d₄ ⟨hsound₄, hpasswords⟩
  refine always_bind (always_device ?_)
  split_ifs
  · refine always_change (hsound₄.session_change rfl rfl rfl fun password' hpassword => ?_)
    rw [session_setSessionPassword, Option.mem_some] at hpassword
    rw [hpasswords, hpassword]
    exact List.mem_singleton_self _
  · exact always_pure hsound₄

/-! ## Moving mnemonics -/

/-- Moving one mnemonic keeps the store. -/
theorem migrateAccountMnemonic_spec (hP : P.usesSeparateMacOsMnemonicStorage = true)
    {entry : CodeUnits × CodeUnits} (hentry : isAccountMnemonicKey entry.1)
    {result : AccountMnemonicMigrationResult} :
    always (migrateAccountMnemonic P entry result) (fun _ d' => Kept P d d')
      (fun _ d' => Kept P d d') d := by
  have hservice : mnemonicService P = .mnemonic := if_pos hP
  have hcopy {d' : Device} (hnone : d'.get ⟨mnemonicService P, entry.1⟩ = none) :
      Kept P d' (d'.put ⟨mnemonicService P, entry.1⟩ entry.2) := by
    refine kept_put (fun key _ heq => ?_) fun hsound hmanaged => ?_
    · rw [hservice] at heq
      cases congrArg Slot.service heq
    · by_contra hsaved
      obtain ⟨value, hmem⟩ := hsound.stored _ hmanaged (Option.isSome_iff_ne_none.2 hsaved)
      exact Device.not_mem_of_get hnone hmem
  have hremove {d' : Device} : Kept P d' (d'.remove ⟨.general, entry.1⟩) := by
    refine kept_remove (fun key hkey heq => ?_) fun hmanaged => ?_
    · have hmanaged : Managed P ⟨mnemonicService P, key⟩ :=
        managed_mnemonic ((Slot.mk.inj heq).2 ▸ hentry)
      exact not_managed _ (List.mem_cons_of_mem _ hkey) hmanaged
    · have hslot := hmanaged.1
      rw [encryptedSecretSlot, if_pos hentry, hservice] at hslot
      cases hslot
  refine always_bind_keep (always_rescue_keep ?_ fun _ _ h => always_pure h) fun copied d₁ h₁ => ?_
  · refine always_then readSlot_spec ?_ fun _ _ h => h.kept
    rintro existing d₁ ⟨rfl, honly⟩
    by_cases hnone : (d₁.get ⟨mnemonicService P, entry.1⟩).isNone
    · rw [if_pos hnone]
      have hget := Option.isNone_iff_eq_none.1 hnone
      refine always_bind_keep (writeSlot_spec (fun d₂ h₂ => ?_) ?_ honly.kept) fun _ _ h =>
        always_pure h
      · exact (honly.trans h₂).kept.trans (hcopy (h₂.get.trans hget))
      · exact honly.kept.trans (hcopy hget)
    · rw [if_neg hnone]
      exact always_pure honly.kept
  cases copied with
  | false => exact always_pure h₁
  | true =>
    refine always_bind_keep (always_rescue_keep ?_ fun _ _ h => always_pure h) fun _ _ h =>
      always_pure h
    refine always_bind_keep (deleteSlot_spec (fun d₂ h₂ => ?_) (h₁.trans hremove) h₁) fun _ _ h =>
      always_pure h
    exact h₁.trans (h₂.kept.trans hremove)

theorem migrateAccountMnemonics_spec (hP : P.usesSeparateMacOsMnemonicStorage = true)
    {entries : List (CodeUnits × CodeUnits)}
    (hentries : ∀ entry ∈ entries, isAccountMnemonicKey entry.1)
    {result : AccountMnemonicMigrationResult} :
    always (migrateAccountMnemonics P entries result) (fun _ d' => Kept P d d')
      (fun _ d' => Kept P d d') d := by
  induction entries generalizing d result with
  | nil => exact always_pure .refl
  | cons entry entries ih =>
    rw [List.forall_mem_cons] at hentries
    refine always_bind_keep (migrateAccountMnemonic_spec hP hentries.1) fun result' d₁ h₁ => ?_
    exact always_mono (fun _ _ h => h₁.trans h) (fun _ _ h => h₁.trans h) (ih hentries.2)

theorem migrateAccountMnemonicsAfterUnlock_spec :
    always (migrateAccountMnemonicsAfterUnlock P) (fun _ d' => Kept P d d')
      (fun _ d' => Kept P d d') d := by
  unfold migrateAccountMnemonicsAfterUnlock
  by_cases hP : P.usesSeparateMacOsMnemonicStorage = true
  swap
  · rw [if_pos hP]
    exact always_pure .refl
  rw [if_neg (not_not_intro hP)]
  refine always_then readPlain_spec ?_ fun _ _ h => h.kept
  rintro complete d₁ ⟨-, honly₁⟩
  split_ifs
  · exact always_pure honly₁.kept
  refine always_then readAll_spec ?_ fun _ _ h => (honly₁.trans h).kept
  rintro values d₂ ⟨-, honly₂⟩
  have hkept₂ : Kept P d d₂ := (honly₁.trans honly₂).kept
  refine always_then (migrateAccountMnemonics_spec hP ?_) (fun result d₃ hmoved => ?_)
    fun _ _ h => hkept₂.trans h
  · exact fun entry hentry => (List.mem_filter.1 hentry).2
  have hkept := hkept₂.trans hmoved
  split_ifs
  · have hcomplete {d' : Device} : Kept P d' (d'.put
        ⟨.general, accountMnemonicMigrationCompleteKey⟩ (literal "true")) := by
      refine kept_put (fun key hkey heq => ?_) fun _ hmanaged => ?_
      · have hmem : accountMnemonicMigrationCompleteKey ∈ stateKeys := (Slot.mk.inj heq).2 ▸ hkey
        exact absurd hmem (by decide)
      · exact absurd hmanaged (not_managed _ List.mem_cons_self)
    refine always_bind_keep (always_rescue_keep ?_ fun _ _ h => always_pure h) fun _ _ h =>
      always_pure h
    refine always_bind_keep (writePlain_spec (fun d₄ h₄ => ?_) (hkept.trans hcomplete) hkept)
      fun _ _ h => always_pure h
    exact hkept.trans (h₄.kept.trans hcomplete)
  · exact always_pure hkept

/-! ## Unlocking -/

theorem Device.Sound.lock (hsound : d.Sound P) : (d.clearSessionPassword P).Sound P :=
  hsound.only (.act .locks)

theorem openSession_spec {generation : ℕ} (hsound : d.Sound P)
    (hpassword : password ∈ d.passwords) :
    always (openSession P password generation) (fun _ d' => d'.Sound P) (fun _ d' => d'.Sound P)
      d := by
  have hopened : ({ d with sessionPassword := some password } : Device).Sound P :=
    hsound.session_change rfl rfl rfl fun password' h => Option.mem_some.1 h ▸ hpassword
  refine always_bind (always_change (always_rescue_keep ?_ fun error d₁ hsound₁ => ?_))
  · refine always_then migrateAccountMnemonicsAfterUnlock_spec (fun migration d₁ hkept => ?_)
      fun _ _ h => h.sound hopened
    have hsound₁ := hkept.sound hopened
    refine always_then checkSessionGeneration_spec ?_ fun _ _ h => h.2 ▸ hsound₁
    rintro - d₂ rfl
    split_ifs
    · exact always_pure hsound₁
    · exact always_bind (always_change (always_pure hsound₁.lock))
  · have hclose : always (do
        checkSessionGeneration P generation
        change (·.clearSessionPassword P)
        return false) (fun _ d' => d'.Sound P) (fun _ d' => d'.Sound P) d₁ := by
      refine always_then checkSessionGeneration_spec ?_ fun _ _ h => h.2 ▸ hsound₁
      rintro - d₂ rfl
      exact always_bind (always_change (always_pure hsound₁.lock))
    cases error with
    | sessionChanged => exact always_raise hsound₁
    | argumentError _ => exact hclose
    | stateError _ => exact hclose
    | unavailable _ => exact hclose
    | recoveryFailed => exact hclose
    | other _ => exact hclose

/-- Unlocking a store keeps it sound. -/
theorem verifyPassword_spec (hsound : d.Sound P)
    (hknown : d.Accepts P password → password ∈ d.passwords) :
    always (verifyPassword P password) (fun _ d' => d'.Sound P) (fun _ d' => d'.Sound P) d := by
  have hattempt {d₁ : Device} (h₁ : Only d d₁) :
      always (attemptUnlock P password) (fun _ d' => d'.Sound P) (fun _ d' => d'.Sound P) d₁ := by
    refine always_bind (always_device ?_)
    refine always_then verifyPasswordOnly_spec (fun isMatch d₂ hmatch => ?_)
      fun _ _ h => hsound.only (h₁.trans h)
    obtain ⟨h₂, haccepts⟩ := hmatch
    have honly : Only d d₂ := h₁.trans h₂
    refine always_then checkSessionGeneration_spec ?_ fun _ _ h => h.2 ▸ hsound.only honly
    rintro - d₃ rfl
    split_ifs with hmatch
    · refine openSession_spec (hsound.only honly) ?_
      rw [honly.passwords]
      exact hknown (honly.agree.accepts.1 (haccepts hmatch))
    · exact always_pure (hsound.only honly)
  unfold verifyPassword
  split_ifs
  · exact always_bind (always_change (hattempt (.act .locks)))
  · exact hattempt .refl

end VizorWallet.SecureStore
