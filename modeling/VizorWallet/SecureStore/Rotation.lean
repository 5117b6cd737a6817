import VizorWallet.SecureStore.Secrets

/-!
# The change of the password

From the record of a change on, every secret opens under the old password or the new one, and the
record has all secrets under the new one. This stays so whatever happens, and while the change is
rolled back or goes on after a restart.

## Main definitions

* `Change` — a change of the password, and the store that it began with.
* `Rotating` — a store in the middle of a change.

## Main results

* `writeRotatedPasswordState_spec` — from the record to the new password.
* `rollbackPasswordRotation_spec` — back to the old password.
* `changePassword_spec`, `recoverInterruptedPasswordRotation_spec` — a whole change, and the rest of
  one after a restart.
-/

namespace VizorWallet.SecureStore

open CodeUnits PaymentLink Effect

variable {Double : Type} {P : Packages Double} {d d' : Device} {slot : Slot}
  {key value password : CodeUnits} {plain : Bytes}

/-! ## In the middle of a change -/

/-- What holds of the session throughout a change. -/
structure SessionGuard where
  holds : Device → Prop
  only : ∀ {d d'}, Only d d' → holds d → holds d'
  put : ∀ {d} slot value, holds d → holds (d.put slot value)
  known : ∀ {d} passwords, holds d → holds (d.known passwords)

/-- The session is the one of a generation, or closed. -/
def ownedBy (P : Packages Double) (generation : ℕ) : SessionGuard where
  holds d := d.Owned P generation
  only honly := honly.owned
  put _ _ h := ⟨h.mutation, h.session⟩
  known _ h := ⟨h.mutation, h.session⟩

/-- The session is closed. -/
def closedSession : SessionGuard where
  holds d := d.sessionPassword = none
  only {d d'} honly h := Option.eq_none_iff_forall_not_mem.2 fun password hpassword => by
    have hmem := honly.session password hpassword
    rw [h] at hmem
    cases hmem
  put _ _ h := h
  known _ h := h

def anySession : SessionGuard := ⟨fun _ => True, fun _ h => h, fun _ _ h => h, fun _ h => h⟩

/-- A change of the password, and the store that it began with. -/
structure Change where
  base : Device
  session : SessionGuard
  rotation : PasswordRotationRecord
  old : CodeUnits
  new : CodeUnits

/-- A store in the middle of a change. -/
structure Rotating (P : Packages Double) (c : Change) (d : Device) : Prop where
  sound : d.Sound P
  pending : d.Pending P c.rotation c.old c.new
  saved : d.saved = c.base.saved
  salt : d.get saltSlot = c.base.get saltSlot
  session : c.session.holds d

variable {c : Change}

namespace Rotating

theorem only (h : Rotating P c d) (honly : Only d d') : Rotating P c d' where
  sound := h.sound.only honly
  pending := honly.agree.pending (fun _ _ hplain => honly.saved ▸ hplain) h.pending
  saved := honly.saved.trans h.saved
  salt := honly.get.trans h.salt
  session := c.session.only honly h.session

theorem salt_eq (h : Rotating P c d) : d.salt = c.base.salt := by
  rw [Device.salt, h.salt, Device.salt]

/-- A secret is stored again, under one of the two passwords. -/
theorem putSecret (h : Rotating P c d) (hslot : Managed P slot)
    (hpassword : password ∈ [c.old, c.new])
    (hopens : ∀ plain ∈ c.base.saved slot, Opens P c.base.salt password value plain) :
    Rotating P c (d.put slot value) := by
  have hagree : Agree d (d.put slot value) := agree_put (ne_of_managed hslot)
  refine ⟨?_, hagree.pending (fun _ _ h => h) h.pending, h.saved, hagree.salt.trans h.salt,
    c.session.put _ _ h.session⟩
  refine ⟨fun slot' hsome => hagree.salt_eq ▸ h.sound.salt slot' hsome, ?_, ?_, h.sound.session,
    h.sound.valid, hagree.state (fun _ _ h => h) h.sound.state⟩
  · intro slot' hmanaged hsome
    by_cases heq : slot' = slot
    · exact ⟨value, List.mem_cons.2 (.inl (by rw [heq]))⟩
    · obtain ⟨value', hmem⟩ := h.sound.stored slot' hmanaged hsome
      exact ⟨value', Device.mem_put_of_ne heq hmem⟩
  · intro slot' hmanaged plain hplain value' hmem
    rw [hagree.salt_eq]
    obtain ⟨rfl, rfl⟩ | ⟨-, hold⟩ := Device.mem_put hmem
    · refine ⟨password, h.pending.passwords ▸ hpassword, ?_⟩
      rw [h.salt_eq]
      exact hopens plain (h.saved ▸ hplain)
    · exact h.sound.opens slot' hmanaged plain hplain value' hold

/-- The verifier or its salt is stored again. -/
theorem putVerifier (h : Rotating P c d) (hvalue : value ≠ [])
    (hkey : key = passwordVerifierSaltKey ∨ key = passwordVerifierKey) :
    Rotating P c (d.put ⟨.general, key⟩ value) := by
  have hpresent {slot : Slot} (h : (present (d.get slot)).isSome) :
      (present ((d.put ⟨.general, key⟩ value).get slot)).isSome := by
    rw [Device.get_put]
    split_ifs
    · rw [present_eq_some.2 ⟨rfl, hvalue⟩, Option.isSome_some]
    · exact h
  have hsame : SameSecrets P d (d.put ⟨.general, key⟩ value) := by
    obtain rfl | rfl := hkey <;> exact sameSecrets_put (by decide) (by decide)
  have hrecord : (d.put ⟨.general, key⟩ value).get rotationSlot = d.get rotationSlot := by
    obtain rfl | rfl := hkey <;> exact get_put_of_key (by decide)
  have hpending : (d.put ⟨.general, key⟩ value).Pending P c.rotation c.old c.new :=
    ⟨h.pending.passwords, hrecord ▸ h.pending.record,
      ⟨h.pending.covers.verifierSalt, h.pending.covers.verifier,
        h.pending.covers.rewrites.congr hsame.salt_eq fun _ _ h => h⟩,
      hpresent h.pending.configured.1, hpresent h.pending.configured.2⟩
  exact ⟨hsame.sound h.sound h.sound.opens h.sound.session h.sound.valid
    (.inr (.inl ⟨_, _, _, hpending⟩)), hpending, h.saved, hsame.salt.trans h.salt,
    c.session.put _ _ h.session⟩

end Rotating

/-! ## Storing all secrets again -/

/-- The secrets that a loop has stored again. -/
def Stored (P : Packages Double) (c : Change) {β : Type} (key : β → CodeUnits) (done : List β)
    (password : CodeUnits) (d : Device) : Prop :=
  ∀ e ∈ done, ∀ plain ∈ c.base.saved (encryptedSecretSlot P (key e)), ∀ value,
    (encryptedSecretSlot P (key e), value) ∈ d.entries → Opens P c.base.salt password value plain

/-- All secrets are stored again, under one of the two passwords. -/
theorem writeEntries_spec {β : Type} {key value : β → CodeUnits} {operation : β → CodeUnits}
    {entries : List β} (h : Rotating P c d) (hpassword : password ∈ [c.old, c.new])
    (hrewrites : Rewrites P c.base key value entries password) :
    always (entries.forM fun e => do
        let _ ← writeSlot P (operation e) (encryptedSecretSlot P (key e)) (value e))
      (fun _ d' => Rotating P c d' ∧ d'.Under P password) (fun _ d' => Rotating P c d') d := by
  refine always_forM (fun done d' => Rotating P c d' ∧ Stored P c key done password d') entries
    ⟨h, fun e he => absurd he List.not_mem_nil⟩ ?_ ?_
  · rintro done e rest d' rfl ⟨hd', hdone⟩
    have he : e ∈ done ++ e :: rest := List.mem_append_right _ List.mem_cons_self
    have hput {d'' : Device} (honly : Only d' d'') :
        Rotating P c (d''.put (encryptedSecretSlot P (key e)) (value e)) :=
      (hd'.only honly).putSecret (hrewrites.managed e he) hpassword (hrewrites.opens e he)
    have hstored {d'' : Device} (honly : Only d' d'') : Stored P c key (done ++ [e]) password
        (d''.put (encryptedSecretSlot P (key e)) (value e)) := by
      intro e' he' plain hplain value' hmem
      obtain ⟨hslot, rfl⟩ | ⟨hslot, hold⟩ := Device.mem_put hmem
      · rw [hslot] at hplain
        exact hrewrites.opens e he plain hplain
      · have hdone' : e' ∈ done := by
          obtain hdone' | hlast := List.mem_append.1 he'
          · exact hdone'
          · rw [List.mem_singleton.1 hlast] at hslot
            exact absurd rfl hslot
        exact hdone e' hdone' plain hplain value' (honly.entries ▸ hold)
    exact always_then (writeSlot_spec (fun d'' honly => And.intro (hput honly) (hstored honly))
      (hput .refl) hd') (fun _ _ hnext => always_pure hnext) fun _ _ hfail => hfail
  · rintro d' ⟨hd', hdone⟩
    refine ⟨hd', fun slot hmanaged plain hplain value' hmem => ?_⟩
    obtain ⟨e, he, rfl⟩ := hrewrites.entry slot hmanaged
      (Option.isSome_iff_exists.2 ⟨plain, hd'.saved ▸ hplain⟩)
    rw [hd'.salt_eq]
    exact hdone e he plain (hd'.saved ▸ hplain) value' hmem

/-- The salt of the verifier is stored again. -/
theorem writeVerifierSalt_spec (h : Rotating P c d) (hunder : d.Under P password)
    (hvalue : value ≠ []) :
    always (writePlain P passwordVerifierSaltKey value)
      (fun _ d' => Rotating P c d' ∧ d'.Under P password ∧ d'.get verifierSaltSlot = some value)
      (fun _ d' => Rotating P c d') d := by
  refine writePlain_spec (fun d' honly => ?_) (h.putVerifier hvalue (.inl rfl)) h
  refine ⟨(h.only honly).putVerifier hvalue (.inl rfl), ?_, Device.get_put_self⟩
  exact (sameSecrets_put (by decide) (by decide)).under (hunder.only honly)

/-- The verifier is stored again. -/
theorem writeVerifier_spec (h : Rotating P c d) (hunder : d.Under P password) {salt : CodeUnits}
    (hget : d.get verifierSaltSlot = some salt) (hsalt : salt ≠ []) (hvalue : value ≠ [])
    (hverifier : deriveSecretPasswordVerifier P password salt = .ok value) :
    always (writePlain P passwordVerifierKey value)
      (fun _ d' => Rotating P c d' ∧ d'.Under P password ∧ d'.Accepts P password)
      (fun _ d' => Rotating P c d') d := by
  refine writePlain_spec (fun d' honly => ?_) (h.putVerifier hvalue (.inr rfl)) h
  refine ⟨(h.only honly).putVerifier hvalue (.inr rfl), ?_, salt, value, ?_, ?_, hverifier⟩
  · exact (sameSecrets_put (by decide) (by decide)).under (hunder.only honly)
  · exact present_eq_some.2 ⟨(get_put_of_key (by decide)).trans (honly.get.trans hget), hsalt⟩
  · exact present_eq_some.2 ⟨Device.get_put_self, hvalue⟩

/-- From the record to the new password. -/
theorem writeRotatedPasswordState_spec (hP : P.Faithful) (h : Rotating P c d) :
    always (writeRotatedPasswordState P c.rotation)
      (fun _ d' => Rotating P c d' ∧ d'.Under P c.new ∧ d'.Accepts P c.new)
      (fun _ d' => Rotating P c d') d := by
  have hcovers := h.pending.covers
  have hrewrites := hcovers.rewrites.congr h.salt_eq.symm fun _ _ hplain => h.saved ▸ hplain
  refine always_then (writeEntries_spec h (by simp) hrewrites) ?_ fun _ _ hfail => hfail
  rintro - d₁ ⟨h₁, hunder₁⟩
  refine always_then (writeVerifierSalt_spec h₁ hunder₁ hcovers.verifierSalt) ?_
    fun _ _ hfail => hfail
  rintro - d₂ ⟨h₂, hunder₂, hget⟩
  refine always_then (writeVerifier_spec h₂ hunder₂ hget hcovers.verifierSalt
    (deriveSecretPasswordVerifier_ne_nil hP hcovers.verifier) hcovers.verifier) ?_
    fun _ _ hfail => hfail
  exact fun _ _ hend => always_pure hend

/-! ## The end of a change -/

/-- A change that may have ended, whose secrets are all under a password. -/
structure Decided (P : Packages Double) (c : Change) (password : CodeUnits) (d : Device) :
    Prop where
  sound : d.Sound P
  saved : d.saved = c.base.saved
  under : d.Under P password
  accepts : d.Accepts P password
  passwords : d.passwords = [password] ∨ d.passwords = [c.old, c.new]

/-- A change that has not ended in the new password. -/
structure Undecided (P : Packages Double) (c : Change) (d : Device) : Prop where
  sound : d.Sound P
  saved : d.saved = c.base.saved
  passwords : d.passwords = [c.old] ∨ d.passwords = [c.old, c.new]

theorem Rotating.undecided (h : Rotating P c d) : Undecided P c d :=
  ⟨h.sound, h.saved, .inr h.pending.passwords⟩

theorem Rotating.decided (h : Rotating P c d) (hunder : d.Under P password)
    (haccepts : d.Accepts P password) : Decided P c password d :=
  ⟨h.sound, h.saved, hunder, haccepts, .inr h.pending.passwords⟩

theorem Decided.undecided (h : Decided P c c.old d) : Undecided P c d :=
  ⟨h.sound, h.saved, h.passwords⟩

/-- The record is deleted, or left. -/
theorem deleteRotationRecordBestEffort_spec {left : List CodeUnits → List CodeUnits}
    (h : Rotating P c d) (hunder : d.Under P password) (haccepts : d.Accepts P password)
    (hsession : ∀ password' ∈ d.sessionPassword, password' = password)
    (hpassword : password ∈ [c.old, c.new]) (hleft : left [c.old, c.new] = [password]) :
    always (deleteRotationRecordBestEffort P left) (fun _ d' => Decided P c password d')
      (fun e d' => e = .killed ∧ Decided P c password d') d := by
  have hdelete {d' : Device} (honly : Only d d') :
      Decided P c password ((d'.remove rotationSlot).known (left d'.passwords)) := by
    have hd' := h.only honly
    have hpasswords : left d'.passwords = [password] := by rw [hd'.pending.passwords, hleft]
    have hsame : SameSecrets P d' ((d'.remove rotationSlot).known (left d'.passwords)) :=
      (sameSecrets_remove (by decide) (by decide)).known _
    have haccepts' : ((d'.remove rotationSlot).known (left d'.passwords)).Accepts P password := by
      obtain ⟨salt, verifier, hsalt, hverifier, hderive⟩ := honly.agree.accepts.2 haccepts
      refine ⟨salt, verifier, ?_, ?_, hderive⟩
      · exact (congrArg present (get_remove_of_key (by decide))).trans hsalt
      · exact (congrArg present (get_remove_of_key (by decide))).trans hverifier
    refine ⟨hsame.sound hd'.sound ?_ ?_ ?_ (.inl ⟨?_, .inr ⟨password, hpasswords, haccepts'⟩⟩),
      hd'.saved, hsame.under (hunder.only honly), haccepts', .inl hpasswords⟩
    · intro slot hmanaged plain hplain value hmem
      refine ⟨password, ?_, hunder.only honly slot hmanaged plain hplain value hmem⟩
      exact hpasswords ▸ List.mem_singleton_self password
    · intro password' hpassword'
      rw [hsession password' (honly.session password' hpassword')]
      exact hpasswords ▸ List.mem_singleton_self password
    · intro password' hpassword'
      obtain rfl := List.mem_singleton.1 (hpasswords ▸ hpassword')
      exact hd'.sound.valid password' (hd'.pending.passwords ▸ hpassword)
    · exact Device.get_remove.trans (if_pos rfl)
  refine always_rescue (always_then (runStorageOperation_spec (fun d' honly => hdelete honly)
    (hdelete .refl) (h.decided hunder haccepts)) (fun _ _ hend => always_pure hend) ?_)
  exact fun _ _ hend => ⟨fun _ _ => always_pure hend, fun _ => ⟨rfl, hend⟩⟩

/-- A failed rollback is marked, or not. -/
theorem markRollbackFailedBestEffort_spec (hP : P.Faithful) (h : Rotating P c d) :
    always (markRollbackFailedBestEffort P) (fun _ d' => Undecided P c d')
      (fun _ d' => Undecided P c d') d := by
  refine always_rescue_keep ?_ fun _ _ hend => always_pure hend
  refine always_bind (always_outcome (fun marker hmarker => ?_) fun _ _ => h.undecided)
  have hfailed := isRollbackFailed_marker hP (orError_eq_ok.1 (mapError_eq_ok.1 hmarker))
  have hput {d' : Device} (honly : Only d d') : Undecided P c (d'.put rotationSlot marker) := by
    have hd' := h.only honly
    refine ⟨(sameSecrets_put (by decide) (by decide)).sound hd'.sound hd'.sound.opens
      hd'.sound.session hd'.sound.valid (.inr (.inr ⟨⟨_, _, hd'.pending.passwords⟩, ?_, ?_, ?_⟩)),
      hd'.saved,      .inr hd'.pending.passwords⟩
    · exact ⟨marker, Device.get_put_self, hfailed⟩
    · rw [get_put_of_key (by decide)]
      exact hd'.pending.configured.1
    · rw [get_put_of_key (by decide)]
      exact hd'.pending.configured.2
  exact always_bind_keep (writePlain_spec (fun d' honly => hput honly) (hput .refl) h.undecided)
    fun _ _ hend => always_pure hend

/-- What a rollback stores again is all secrets under the old password, and its verifier. -/
structure Restores (P : Packages Double) (d : Device) (rollback : PasswordRotationRollbackSnapshot)
    (old : CodeUnits) : Prop where
  rewrites : Rewrites P d PasswordRotationRollbackEntry.key
    PasswordRotationRollbackEntry.originalValue rollback.entries old
  verifier : ∃ salt verifier, rollback.oldVerifierSalt = some salt ∧ salt ≠ [] ∧
    rollback.oldVerifier = some verifier ∧ verifier ≠ [] ∧
    deriveSecretPasswordVerifier P old salt = .ok verifier

/-- A change whose session is another one now. -/
def Change.released (c : Change) : Change := { c with session := anySession }

theorem Decided.of_released (h : Decided P c.released password d) : Decided P c password d :=
  ⟨h.sound, h.saved, h.under, h.accepts, h.passwords⟩

theorem Rotating.released (h : Rotating P c d) : Rotating P c.released d :=
  ⟨h.sound, h.pending, h.saved, h.salt, trivial⟩

/-- The session is opened with one of the two passwords. -/
theorem Rotating.setSession (h : Rotating P c d) (hpassword : password ∈ [c.old, c.new]) :
    Rotating P c.released (d.setSessionPassword P password) := by
  refine ⟨h.sound.session_change rfl rfl rfl fun password' hsession => ?_, ?_, h.saved, h.salt,
    trivial⟩
  · rw [session_setSessionPassword, Option.mem_some] at hsession
    exact h.pending.passwords ▸ hsession ▸ hpassword
  · have hagree : Agree d (d.setSessionPassword P password) := ⟨rfl, rfl, rfl, rfl, rfl⟩
    exact hagree.pending (fun _ _ hplain => hplain) h.pending

/-- The session is opened under the password of the secrets, and the record is deleted. -/
theorem endPasswordRotation_spec {generation : ℕ} {left : List CodeUnits → List CodeUnits}
    (h : Rotating P c d) (howner : ∀ d, c.session.holds d → d.Owned P generation)
    (hunder : d.Under P password) (haccepts : d.Accepts P password)
    (hpassword : password ∈ [c.old, c.new]) (hleft : left [c.old, c.new] = [password]) :
    always (endPasswordRotation P password generation left) (fun _ d' => Decided P c password d')
      (fun e d' => e = .killed ∧ Decided P c password d') d := by
  have hdelete {d' : Device} (h' : Rotating P c.released d') (hunder' : d'.Under P password)
      (haccepts' : d'.Accepts P password)
      (hsession : ∀ password' ∈ d'.sessionPassword, password' = password) :
      always (deleteRotationRecordBestEffort P left) (fun _ d' => Decided P c password d')
        (fun e d' => e = .killed ∧ Decided P c password d') d' :=
    always_mono (fun _ _ hend => hend.of_released) (fun _ _ hend => ⟨hend.1, hend.2.of_released⟩)
      (deleteRotationRecordBestEffort_spec h' hunder' haccepts' hsession hpassword hleft)
  refine always_bind (always_device ?_)
  split_ifs with hcurrent
  · refine always_bind (always_change (hdelete (h.setSession hpassword) hunder haccepts ?_))
    intro password' hsession
    exact (Option.mem_some.1 hsession).symm
  · refine hdelete h.released hunder haccepts fun password' hsession => ?_
    rw [(howner d h.session).session.resolve_left hcurrent] at hsession
    cases hsession

/-- Back to the old password. -/
theorem rollbackPasswordRotation_spec (hP : P.Faithful) {generation : ℕ}
    {rollback : PasswordRotationRollbackSnapshot} (h : Rotating P c d)
    (howner : ∀ d, c.session.holds d → d.Owned P generation)
    (hrestores : Restores P c.base rollback c.old) :
    always (rollbackPasswordRotation P rollback c.old generation) (fun _ d' => Undecided P c d')
      (fun _ d' => Undecided P c d') d := by
  obtain ⟨hrewrites, salt, verifier, hsaltEq, hsalt, hverifierEq, hverifier, hderive⟩ := hrestores
  have hbody {d' : Device} {e : Interrupt StoreError} (hfail : Rotating P c d') :
      (∀ error, e = .thrown error → always (markRollbackFailedBestEffort P)
        (fun _ d' => Undecided P c d') (fun _ d' => Undecided P c d') d') ∧
      (e = .killed → Undecided P c d') :=
    ⟨fun _ _ => markRollbackFailedBestEffort_spec hP hfail, fun _ => hfail.undecided⟩
  refine always_rescue (always_then (writeEntries_spec h (by simp) hrewrites) ?_
    fun _ _ hfail => hbody hfail)
  rintro - d₁ ⟨h₁, hunder₁⟩
  rw [hsaltEq, hverifierEq]
  refine always_then (writeVerifierSalt_spec h₁ hunder₁ hsalt) ?_ fun _ _ hfail => hbody hfail
  rintro - d₂ ⟨h₂, hunder₂, hget⟩
  refine always_then (writeVerifier_spec h₂ hunder₂ hget hsalt hverifier hderive) ?_
    fun _ _ hfail => hbody hfail
  rintro - d₃ ⟨h₃, hunder₃, haccepts⟩
  refine always_mono (fun _ _ hend => hend.undecided) ?_
    (endPasswordRotation_spec h₃ howner hunder₃ haccepts (by simp) rfl)
  rintro - d₄ ⟨rfl, hend⟩
  exact ⟨fun _ heq => (by cases heq), fun _ => hend.undecided⟩

/-! ## Encrypting all secrets anew -/

/-- A secret under the old password and under the new one. -/
def Rotated (P : Packages Double) (salt old new : CodeUnits)
    (pair : PasswordRotationEntry × PasswordRotationRollbackEntry) : Prop :=
  pair.1.key = pair.2.key ∧
    ∃ clearText, Opens P salt old pair.2.originalValue clearText ∧
      Opens P salt new pair.1.rotatedValue clearText

theorem rotateEntries_spec (hP : P.Faithful) {old new salt : CodeUnits}
    {entries : List (CodeUnits × CodeUnits)} :
    always (rotateEntries P old new salt entries)
      (fun pairs d' => Only d d' ∧
        pairs.map (fun pair => (pair.2.key, pair.2.originalValue)) = entries ∧
        ∀ pair ∈ pairs, Rotated P salt old new pair)
      (fun _ d' => Only d d') d := by
  induction entries generalizing d with
  | nil => exact always_pure ⟨.refl, rfl, fun _ h => absurd h List.not_mem_nil⟩
  | cons entry entries ih =>
    obtain ⟨key, value⟩ := entry
    refine always_bind (always_require (fun _ => ?_) fun _ => .refl)
    refine always_bind (always_outcome (fun clearText hclearText => ?_) fun _ _ => .refl)
    have hopens : Opens P salt old value clearText := mapError_eq_ok.1 hclearText
    refine always_then (encryptBytesWithPassword_spec hP) ?_ fun _ _ hfail => hfail
    rintro rotatedValue d₁ ⟨h₁, hrotated⟩
    refine always_then ih ?_ fun _ _ hfail => h₁.trans hfail
    rintro pairs d₂ ⟨h₂, rfl, hpairs⟩
    refine always_pure ⟨h₁.trans h₂, rfl, fun pair hpair => ?_⟩
    obtain rfl | hrest := List.mem_cons.1 hpair
    · exact ⟨rfl, clearText, hopens, hrotated⟩
    · exact hpairs pair hrest

/-- The entries that a change encrypts anew. -/
def managedEntries (P : Packages Double) (d : Device) : List (CodeUnits × CodeUnits) :=
  (d.readAll (mnemonicService P)).filter (fun entry => isAccountMnemonicKey entry.1) ++
    (d.readAll .general).filter fun entry => isAppManagedGeneralSecretKey entry.1

theorem mem_managedEntries : (key, value) ∈ managedEntries P d ↔
    Managed P (encryptedSecretSlot P key) ∧ (encryptedSecretSlot P key, value) ∈ d.entries := by
  rw [managedEntries, List.mem_append, List.mem_filter, List.mem_filter, Device.mem_readAll,
    Device.mem_readAll]
  by_cases hmnemonic : isAccountMnemonicKey key
  · have hslot : encryptedSecretSlot P key = ⟨mnemonicService P, key⟩ := by
      rw [encryptedSecretSlot, if_pos hmnemonic]
    have hgeneral : ¬ isAppManagedGeneralSecretKey key = true := fun h =>
      not_isAccountMnemonicKey h hmnemonic
    rw [hslot]
    exact ⟨fun h => ⟨managed_mnemonic hmnemonic, (h.resolve_right fun h => hgeneral h.2).1⟩,
      fun h => .inl ⟨h.2, hmnemonic⟩⟩
  · have hslot : encryptedSecretSlot P key = ⟨.general, key⟩ := by
      rw [encryptedSecretSlot, if_neg hmnemonic]
    rw [hslot]
    refine ⟨fun h => ?_, fun h => .inr ⟨h.2, h.1.2.resolve_left hmnemonic⟩⟩
    have hright := h.resolve_left fun h => hmnemonic h.2
    exact ⟨managed_general hright.2, hright.1⟩

section Snapshot

variable {old new salt : CodeUnits}
  {pairs : List (PasswordRotationEntry × PasswordRotationRollbackEntry)}

/-- The secret of an entry that is encrypted anew. -/
theorem entry_of_pair (hpairs : pairs.map (fun pair => (pair.2.key, pair.2.originalValue)) =
      managedEntries P d) {pair : PasswordRotationEntry × PasswordRotationRollbackEntry}
    (hpair : pair ∈ pairs) : Managed P (encryptedSecretSlot P pair.2.key) ∧
      (encryptedSecretSlot P pair.2.key, pair.2.originalValue) ∈ d.entries :=
  mem_managedEntries.1 (hpairs ▸ List.mem_map.2 ⟨pair, hpair, rfl⟩)

theorem pair_of_saved (hsound : d.Sound P)
    (hpairs : pairs.map (fun pair => (pair.2.key, pair.2.originalValue)) = managedEntries P d)
    (hslot : Managed P slot) (hsaved : (d.saved slot).isSome) :
    ∃ pair ∈ pairs, encryptedSecretSlot P pair.2.key = slot := by
  obtain ⟨value, hmem⟩ := hsound.stored slot hslot hsaved
  have hentry : (slot.key, value) ∈ managedEntries P d :=
    mem_managedEntries.2 ⟨hslot.1 ▸ hslot, hslot.1 ▸ hmem⟩
  rw [← hpairs, List.mem_map] at hentry
  obtain ⟨pair, hpair, heq⟩ := hentry
  refine ⟨pair, hpair, ?_⟩
  rw [(Prod.mk.inj heq).1]
  exact hslot.1.symm

/-- The secrets under the old password, to go back to. -/
theorem rewrites_original (hsound : d.Sound P) (hunder : d.Under P old)
    (hpairs : pairs.map (fun pair => (pair.2.key, pair.2.originalValue)) = managedEntries P d) :
    Rewrites P d PasswordRotationRollbackEntry.key PasswordRotationRollbackEntry.originalValue
      (pairs.map Prod.snd) old where
  managed e he := by
    obtain ⟨pair, hpair, rfl⟩ := List.mem_map.1 he
    exact (entry_of_pair hpairs hpair).1
  entry slot hslot hsaved := by
    obtain ⟨pair, hpair, heq⟩ := pair_of_saved hsound hpairs hslot hsaved
    exact ⟨pair.2, List.mem_map.2 ⟨pair, hpair, rfl⟩, heq⟩
  opens e he plain hplain := by
    obtain ⟨pair, hpair, rfl⟩ := List.mem_map.1 he
    obtain ⟨hmanaged, hmem⟩ := entry_of_pair hpairs hpair
    exact hunder _ hmanaged plain hplain _ hmem

/-- The secrets under the new password. -/
theorem rewrites_rotated (hsound : d.Sound P) (hunder : d.Under P old)
    (hpairs : pairs.map (fun pair => (pair.2.key, pair.2.originalValue)) = managedEntries P d)
    (hrotated : ∀ pair ∈ pairs, Rotated P d.salt old new pair) :
    Rewrites P d PasswordRotationEntry.key PasswordRotationEntry.rotatedValue
      (pairs.map Prod.fst) new where
  managed e he := by
    obtain ⟨pair, hpair, rfl⟩ := List.mem_map.1 he
    rw [(hrotated pair hpair).1]
    exact (entry_of_pair hpairs hpair).1
  entry slot hslot hsaved := by
    obtain ⟨pair, hpair, heq⟩ := pair_of_saved hsound hpairs hslot hsaved
    refine ⟨pair.1, List.mem_map.2 ⟨pair, hpair, rfl⟩, ?_⟩
    rw [(hrotated pair hpair).1]
    exact heq
  opens e he plain hplain := by
    obtain ⟨pair, hpair, rfl⟩ := List.mem_map.1 he
    obtain ⟨hkey, clearText, hold, hnew⟩ := hrotated pair hpair
    rw [hkey] at hplain
    obtain ⟨hmanaged, hmem⟩ := entry_of_pair hpairs hpair
    have hopens : Opens P d.salt old pair.2.originalValue plain :=
      hunder _ hmanaged plain hplain _ hmem
    obtain rfl := Except.ok.inj (hold.symm.trans hopens)
    exact hnew

end Snapshot

/-! ## A whole change -/

/-- A store that a change of the password may begin with, and what it is going to store. -/
structure Prepared (P : Packages Double) (c : Change)
    (rollback : PasswordRotationRollbackSnapshot) : Prop where
  sound : c.base.Sound P
  passwords : c.base.passwords = [c.old]
  accepts : c.base.Accepts P c.old
  covers : Covers P c.base c.rotation c.new
  restores : Restores P c.base rollback c.old
  session : c.session.holds c.base
  valid : isWalletPasswordValid P c.new

/-- The record is stored. -/
theorem Prepared.putRecord (hP : P.Faithful) {rollback : PasswordRotationRollbackSnapshot}
    (h : Prepared P c rollback) {record : CodeUnits}
    (hrecord : c.rotation.serialize P = .ok record) (honly : Only c.base d) :
    Rotating P c ((d.put rotationSlot record).known [c.old, c.new]) := by
  have hsound := h.sound.only honly
  have hsame : SameSecrets P d ((d.put rotationSlot record).known [c.old, c.new]) :=
    (sameSecrets_put (by decide) (by decide)).known _
  have hpasswords : d.passwords = [c.old] := honly.passwords.trans h.passwords
  have hmem {password : CodeUnits} (hpassword : password ∈ d.passwords) :
      password ∈ [c.old, c.new] := by
    rw [hpasswords, List.mem_singleton] at hpassword
    rw [hpassword]
    exact List.mem_cons_self
  obtain ⟨salt, verifier, hsalt, hverifier, -⟩ := honly.agree.accepts.2 h.accepts
  have hpending : ((d.put rotationSlot record).known [c.old, c.new]).Pending P c.rotation c.old
      c.new := by
    refine ⟨rfl, ⟨record, Device.get_put_self, ?_, isRollbackFailed_serialize hP hrecord,
      tryParse_of_serialize hP hrecord⟩, ⟨h.covers.verifierSalt, h.covers.verifier, ?_⟩, ?_, ?_⟩
    · exact hP.jsonEncode_ne_nil (orError_eq_ok.1 hrecord)
    · exact h.covers.rewrites.congr (hsame.salt_eq.trans honly.agree.salt_eq)
        fun _ _ hplain => honly.saved ▸ hplain
    · exact Option.isSome_iff_exists.2
        ⟨salt, (congrArg present (get_put_of_key (by decide))).trans hsalt⟩
    · exact Option.isSome_iff_exists.2
        ⟨verifier, (congrArg present (get_put_of_key (by decide))).trans hverifier⟩
  refine ⟨hsame.sound hsound ?_ ?_ ?_ (.inr (.inl ⟨_, _, _, hpending⟩)), hpending, honly.saved,
    hsame.salt.trans honly.get,
    c.session.known _ (c.session.put _ _ (c.session.only honly h.session))⟩
  · intro slot hmanaged plain hplain value hvalue
    obtain ⟨password, hpassword, hopens⟩ := hsound.opens slot hmanaged plain hplain value hvalue
    exact ⟨password, hmem hpassword, hopens⟩
  · exact fun password hpassword => hmem (hsound.session password hpassword)
  · intro password hpassword
    obtain rfl | hnew := List.mem_cons.1 hpassword
    · exact hsound.valid c.old (hpasswords ▸ List.mem_singleton_self c.old)
    · exact List.mem_singleton.1 hnew ▸ h.valid

theorem Prepared.undecided {rollback : PasswordRotationRollbackSnapshot}
    (h : Prepared P c rollback) : Undecided P c c.base := ⟨h.sound, rfl, .inl h.passwords⟩

/-- From the record on, a change ends in the new password, or is undecided. -/
theorem commitPasswordRotation_spec (hP : P.Faithful) {generation : ℕ}
    {rollback : PasswordRotationRollbackSnapshot} (h : Prepared P c rollback)
    (howner : ∀ d, c.session.holds d → d.Owned P generation) :
    always (commitPasswordRotation P c.rotation rollback c.old c.new generation)
      (fun changed d' => changed = true ∧ Decided P c c.new d')
      (fun e d' => Undecided P c d' ∨ e = .killed ∧ Decided P c c.new d') c.base := by
  refine always_bind (always_outcome (fun record hrecord => ?_) fun _ _ => .inl h.undecided)
  rw [mapError_eq_ok] at hrecord
  refine always_then (runStorageOperation_spec (fun d honly => h.putRecord hP hrecord honly)
    (h.putRecord hP hrecord .refl).undecided h.undecided) ?_ fun _ _ hfail => .inl hfail
  intro _ d₁ h₁
  have hwrite : always (rescue (writeRotatedPasswordState P c.rotation) fun error => do
      rollbackPasswordRotation P rollback c.old generation
      raise error) (fun _ d' => Rotating P c d' ∧ d'.Under P c.new ∧ d'.Accepts P c.new)
      (fun _ d' => Undecided P c d') d₁ := by
    refine always_rescue (always_mono (fun _ _ hok => hok) (fun e d₂ h₂ => ⟨fun error _ => ?_,
      fun _ => h₂.undecided⟩) (writeRotatedPasswordState_spec hP h₁))
    exact always_bind_keep (rollbackPasswordRotation_spec hP h₂ howner h.restores)
      fun _ _ hend => always_raise hend
  refine always_then hwrite ?_ fun _ _ hfail => .inl hfail
  rintro - d₂ ⟨h₂, hunder, haccepts⟩
  refine always_then (endPasswordRotation_spec h₂ howner hunder haccepts (by simp) rfl)
    (fun _ _ hend => always_pure ⟨rfl, hend⟩) fun _ _ hend => .inr hend

/-- A store that is under the new password, with the secrets that there were. -/
structure Changed (P : Packages Double) (d : Device) (new : CodeUnits) (d' : Device) : Prop where
  sound : d'.Sound P
  saved : d'.saved = d.saved
  under : d'.Under P new
  accepts : d'.Accepts P new

/-- A store with the secrets and the passwords that there were, and maybe another password. -/
structure Unchanged (P : Packages Double) (d : Device) (old new : CodeUnits) (d' : Device) :
    Prop where
  sound : d'.Sound P
  saved : d'.saved = d.saved
  passwords : d'.passwords = d.passwords ∨ d'.passwords = [old, new]

theorem Kept.unchanged (h : Kept P d d') (hsound : d.Sound P) {old new : CodeUnits} :
    Unchanged P d old new d' := ⟨h.sound hsound, h.saved, .inl h.passwords⟩

theorem under_of_settled (hsound : d.Sound P) (hpasswords : d.passwords = [password]) :
    d.Under P password := by
  intro slot hslot plain hplain value hmem
  obtain ⟨known, hknown, hopens⟩ := hsound.opens slot hslot plain hplain value hmem
  rw [hpasswords, List.mem_singleton] at hknown
  exact hknown ▸ hopens

/-- The checks of a change pass for the current password. -/
theorem checkPasswordChange_spec {old new : CodeUnits} {generation : ℕ} :
    always (checkPasswordChange P old new generation)
      (fun passed d' => Only d d' ∧ (passed = true → d'.Accepts P old ∧
        isWalletPasswordValid P new ∧
        (d.get rotationSlot).any (isRollbackFailedRotationRecord P) = false))
      (fun _ d' => Only d d') d := by
  refine always_then readPlain_spec ?_ fun _ _ h => h
  rintro record d₁ ⟨rfl, h₁⟩
  refine always_bind (always_require (fun hrecord => ?_) fun _ => h₁)
  rw [h₁.get, Bool.not_eq_true] at hrecord
  split_ifs
  · refine always_bind (always_require (fun _ => ?_) fun _ => h₁)
    refine always_bind (always_require (fun herror => ?_) fun _ => h₁)
    have hvalid : isWalletPasswordValid P new := by rw [isWalletPasswordValid, herror]; rfl
    refine always_then verifyPasswordOnly_spec ?_ fun _ _ h => h₁.trans h
    rintro passed d₂ ⟨h₂, haccepts⟩
    refine always_then checkSessionGeneration_spec ?_ fun _ _ h => h.2 ▸ h₁.trans h₂
    rintro - d₃ rfl
    exact always_pure ⟨h₁.trans h₂, fun hpassed => ⟨haccepts hpassed, hvalid, hrecord⟩⟩
  · exact always_pure ⟨h₁, fun h => by cases h⟩

/-- What a change is going to store is prepared. -/
theorem preparePasswordRotation_spec (hP : P.Faithful) {old new : CodeUnits} {generation : ℕ}
    (hsound : d.Sound P) (hpasswords : d.passwords = [old]) (haccepts : d.Accepts P old)
    (howned : d.Owned P generation) (hvalid : isWalletPasswordValid P new) :
    always (preparePasswordRotation P old new generation)
      (fun prepared d' => Kept P d d' ∧
        Prepared P ⟨d', ownedBy P generation, prepared.1, old, new⟩ prepared.2)
      (fun _ d' => Kept P d d') d := by
  refine always_then readPlain_spec ?_ fun _ _ h => h.kept
  rintro verifierSalt d₁ ⟨rfl, h₁⟩
  refine always_then readPlain_spec ?_ fun _ _ h => h₁.kept.trans h.kept
  rintro verifier d₂ ⟨rfl, h₂⟩
  have hkept₂ : Kept P d d₂ := h₁.kept.trans h₂.kept
  refine always_then (getOrCreateSaltBase64_spec hP) ?_ fun _ _ h => hkept₂.trans h
  rintro salt d₃ ⟨h₃, rfl, hsalt⟩
  have hkept₃ := hkept₂.trans h₃
  refine always_then migrateAccountMnemonicsAfterUnlock_spec ?_ fun _ _ h => hkept₃.trans h
  rintro migration d₄ h₄
  have hkept₄ := hkept₃.trans h₄
  refine always_bind (always_require (fun _ => ?_) fun _ => hkept₄)
  refine always_then readAll_spec ?_ fun _ _ h => hkept₄.trans h.kept
  rintro storedValues d₅ ⟨rfl, h₅⟩
  refine always_then (rotateEntries_spec hP) ?_ fun _ _ h => hkept₄.trans (h₅.trans h).kept
  rintro mnemonics d₆ ⟨h₆, hmnemonics, hrotated₆⟩
  have honly₆ := h₅.trans h₆
  refine always_then readAll_spec ?_ fun _ _ h => hkept₄.trans (honly₆.trans h).kept
  rintro appManagedSecretValues d₇ ⟨rfl, h₇⟩
  have honly₇ := honly₆.trans h₇
  refine always_then (rotateEntries_spec hP) ?_ fun _ _ h => hkept₄.trans (honly₇.trans h).kept
  rintro secrets d₈ ⟨h₈, hsecrets, hrotated₈⟩
  have honly₈ := honly₇.trans h₈
  refine always_then randomBytes_spec ?_ fun _ _ h => h
  rintro bytes d₉ ⟨hlength, h₉⟩
  have honly₉ := honly₈.trans h₉
  have hkept : Kept P d d₉ := hkept₄.trans honly₉.kept
  refine always_bind (always_outcome (fun newVerifier hverifier => ?_) fun _ _ => hkept)
  refine always_then checkSessionGeneration_spec ?_ fun _ _ h => h.2 ▸ hkept
  rintro - d' rfl
  refine always_pure ⟨hkept, ?_⟩
  have hsound' := hkept.sound hsound
  have hunder := under_of_settled hsound' (hkept.passwords.trans hpasswords)
  have hsalt' : d'.salt = d₃.salt := honly₉.agree.salt_eq.trans (h₄.salt hsalt)
  have hpairs : (mnemonics ++ secrets).map (fun pair => (pair.2.key, pair.2.originalValue)) =
      managedEntries P d' := by
    rw [List.map_append, hmnemonics, hsecrets, managedEntries, (h₆.trans (h₇.trans
      (h₈.trans h₉))).readAll, (h₈.trans h₉).readAll]
  have hrotated : ∀ pair ∈ mnemonics ++ secrets, Rotated P d'.salt old new pair := by
    intro pair hpair
    rw [hsalt']
    exact (List.mem_append.1 hpair).elim (hrotated₆ pair) (hrotated₈ pair)
  refine ⟨hsound', hkept.passwords.trans hpasswords, hkept.accepts.2 haccepts,
    ⟨?_, mapError_eq_ok.1 hverifier, rewrites_rotated hsound' hunder hpairs hrotated⟩,
    ⟨rewrites_original hsound' hunder hpairs, ?_⟩, hkept.owned generation howned, hvalid⟩
  · exact hP.base64Encode_ne_nil (List.ne_nil_of_length_pos (hlength ▸ Nat.succ_pos 15))
  · obtain ⟨oldSalt, oldVerifier, holdSalt, holdVerifier, hderive⟩ := haccepts
    rw [present_eq_some] at holdSalt holdVerifier
    exact ⟨oldSalt, oldVerifier, h₁.get.trans holdSalt.1, holdSalt.2,
      h₂.get.trans (h₁.get.trans holdVerifier.1), holdVerifier.2, hderive⟩

/-- A change of the password ends in the new one, or with the passwords that there were. -/
theorem changePassword_spec (hP : P.Faithful) {old new : CodeUnits} (hsound : d.Sound P)
    (hwritable : d.Writable P) (hmutation : d.hasPendingMutation)
    (hknown : d.Accepts P old → old ∈ d.passwords) :
    always (changePassword P old new)
      (fun changed d' => if changed then Changed P d new d' else Unchanged P d old new d')
      (fun e d' => Unchanged P d old new d' ∨ e = .killed ∧ Changed P d new d') d := by
  have hkeep {d' : Device} (h : Kept P d d') : Unchanged P d old new d' := h.unchanged hsound
  have howned : d.Owned P d.sessionGeneration := by
    refine ⟨hmutation, .inl ?_⟩
    simp [Device.isSessionGenerationCurrent]
  refine always_bind (always_device ?_)
  refine always_then checkSessionGeneration_spec ?_ fun _ _ h => .inl (h.2 ▸ hkeep .refl)
  rintro - d₁ rfl
  refine always_then checkPasswordChange_spec ?_ fun _ _ h => .inl (hkeep h.kept)
  rintro passed d₂ ⟨h₂, hpassed⟩
  cases passed with
  | false => exact always_pure (hkeep h₂.kept)
  | true =>
    obtain ⟨haccepts, hvalid, hrecord⟩ := hpassed rfl
    have hold : old ∈ d₁.passwords := hknown (h₂.agree.accepts.1 haccepts)
    have hpasswords : d₁.passwords = [old] := by
      obtain hsettled | hfailed := hwritable
      · exact (hsettled.accepts hold).1
      · obtain ⟨raw, hraw, hmarked⟩ := hfailed.record
        rw [hraw, Option.any_some, hmarked] at hrecord
        cases hrecord
    refine always_then (preparePasswordRotation_spec hP (hsound.only h₂)
      (h₂.passwords.trans hpasswords) haccepts (h₂.owned howned) hvalid) ?_
      fun _ _ h => .inl (hkeep (h₂.kept.trans h))
    rintro prepared d₃ ⟨hkept, hprepared⟩
    have hsaved := (h₂.kept.trans hkept).saved
    have hcommit := commitPasswordRotation_spec hP hprepared fun _ howned => howned
    refine always_mono ?_ ?_ hcommit
    · rintro changed d' ⟨rfl, hend⟩
      exact ⟨hend.sound, hend.saved.trans hsaved, hend.under, hend.accepts⟩
    · rintro e d' (hend | ⟨rfl, hend⟩)
      · refine .inl ⟨hend.sound, hend.saved.trans hsaved, ?_⟩
        rw [hpasswords]
        exact hend.passwords
      · exact .inr ⟨rfl, hend.sound, hend.saved.trans hsaved, hend.under, hend.accepts⟩

/-- A stored record is the one of a pending change, unless it is marked. -/
theorem Device.Sound.pending_of_record (hsound : d.Sound P) {raw : CodeUnits}
    (hraw : d.get rotationSlot = some raw) (hmarked : ¬ isRollbackFailedRotationRecord P raw) :
    ∃ rotation old new, d.Pending P rotation old new ∧
      PasswordRotationRecord.tryParse P raw = some rotation := by
  obtain hsettled | ⟨rotation, old, new, hpending⟩ | hfailed := hsound.state
  · rw [hsettled.record] at hraw
    cases hraw
  · obtain ⟨raw', hraw', -, -, hparse⟩ := hpending.record
    obtain rfl := Option.some.inj (hraw.symm.trans hraw')
    exact ⟨rotation, old, new, hpending, hparse⟩
  · obtain ⟨raw', hraw', hmarked'⟩ := hfailed.record
    obtain rfl := Option.some.inj (hraw.symm.trans hraw')
    exact absurd hmarked' hmarked

/-- A pending change, as it is found after a restart. -/
theorem Device.Pending.rotating {rotation : PasswordRotationRecord} {old new : CodeUnits}
    (h : d.Pending P rotation old new) (hsound : d.Sound P) (hsession : d.sessionPassword = none) :
    Rotating P ⟨d, closedSession, rotation, old, new⟩ d := ⟨hsound, h, rfl, rfl, hsession⟩

/-- After a restart, a change goes on from its record, or is left as it is. -/
theorem recoverInterruptedPasswordRotation_spec (hP : P.Faithful) (hsound : d.Sound P)
    (hsession : d.sessionPassword = none) :
    always (recoverInterruptedPasswordRotation P)
      (fun _ d' => d'.Sound P ∧ d'.saved = d.saved)
      (fun _ d' => d'.Sound P ∧ d'.saved = d.saved) d := by
  refine always_then readPlain_spec ?_ fun _ _ h => ⟨hsound.only h, h.saved⟩
  rintro raw d₁ ⟨rfl, h₁⟩
  have hsound₁ := hsound.only h₁
  cases hraw : present (d₁.get rotationSlot) with
  | none => exact always_pure ⟨hsound₁, h₁.saved⟩
  | some raw =>
    dsimp only
    split_ifs with hmarked
    · exact always_bind (always_raise ⟨hsound₁, h₁.saved⟩)
    obtain ⟨rotation, old, new, hpending, hparse⟩ :=
      hsound₁.pending_of_record (present_eq_some.1 hraw).1 hmarked
    have hrotating := hpending.rotating hsound₁ (closedSession.only h₁ hsession)
    rw [hparse]
    refine always_then (writeRotatedPasswordState_spec hP hrotating) ?_
      fun _ _ h => ⟨h.sound, h.saved.trans h₁.saved⟩
    rintro - d₂ ⟨h₂, hunder, haccepts⟩
    have hclosed : ∀ password ∈ d₂.sessionPassword, password = new := by
      intro password hpassword
      rw [show d₂.sessionPassword = none from h₂.session] at hpassword
      cases hpassword
    refine always_then
      (deleteRotationRecordBestEffort_spec h₂ hunder haccepts hclosed (by simp) rfl) ?_
      fun _ _ h => ⟨h.2.sound, h.2.saved.trans h₁.saved⟩
    exact fun _ d₃ h₃ => always_change ⟨h₃.sound.lock, h₃.saved.trans h₁.saved⟩

end VizorWallet.SecureStore
