import VizorWallet.Library.Transition
import VizorWallet.SecureStore.Rotation

/-!
# Runs of the secure store

The app starts, ends at any access, and starts again; in between it runs operations whose accesses
may fail. In every state of such a run each secret opens under a password that the store knows.

## Main definitions

* `Operation`, `Event` — what the app does, and what happens to it.
* `Admissible` — what the callers take care of.
* `system` — the runs.

## Main results

* `sound_reached` — reached stores are sound.
* `secrets_open` — every secret opens, under the one password that is accepted when no change of it
  is recorded.
* `change_ends` — a change of the password that succeeds ends in the new one, others in the old one.
-/

namespace VizorWallet.SecureStore

open CodeUnits PaymentLink Effect

variable {Double : Type} (P : Packages Double)

/-! ## Runs -/

/-- What the app does. -/
inductive Operation
  /-- `loadAppBootstrap` -/
  | boot
  | configurePassword (password : CodeUnits)
  | verifyPassword (password : CodeUnits)
  | lock
  | switchAccount
  | writeSecretString (key value : CodeUnits)
  | writeAccountMnemonic (accountUuid value : CodeUnits)
  | readAccountMnemonicBytes (accountUuid : CodeUnits) (requireUnlockedSession : Bool)
  | delete (key : CodeUnits)
  | changePassword (currentPassword newPassword : CodeUnits)

/-- An operation, with what happens at its accesses and the random bytes that it gets. -/
structure Event where
  operation : Operation
  script : List (Option (Fault Interference))
  random : List Bytes

def perform : Operation → Eff Unit
  | .boot => do
    change Device.restart
    recoverInterruptedPasswordRotation P
  | .configurePassword password => runMutation (configurePassword P password)
  | .verifyPassword password => do
    let _ ← verifyPassword P password
  | .lock => change (·.clearSessionPassword P)
  | .switchAccount => change (·.invalidatePendingSecretOperations P)
  | .writeSecretString key value => writeSecretString P key value
  | .writeAccountMnemonic accountUuid value => writeAccountMnemonic P accountUuid value
  | .readAccountMnemonicBytes accountUuid requireUnlockedSession => do
    let _ ← readAccountMnemonicBytes P accountUuid requireUnlockedSession
  | .delete key => deleteSecret P key
  | .changePassword currentPassword newPassword => do
    let _ ← runMutation (changePassword P currentPassword newPassword)

/-- The device after an operation; a process that has ended starts again. -/
def after {α : Type} : Except (Interrupt StoreError) α × Faulty Interference Device → Device
  | (.error .killed, s) => s.device.restart
  | (_, s) => s.device

def step (d : Device) (e : Event) : Device :=
  after ((perform P e.operation).run.run ⟨{ d with random := e.random }, e.script⟩)

/-- A device with what is stored that the store does not use itself. -/
def installed (entries : List (Slot × CodeUnits)) : Device where
  entries := entries.filter fun entry => !stateKeys.contains entry.1.key
  sessionPassword := none
  sessionGeneration := 0
  hasPendingMutation := false
  random := []
  saved _ := none
  passwords := []

def system (entries : List (Slot × CodeUnits)) : Transition Device Event where
  init := installed entries
  step d e := some (step P d e)

/-- No record is stored with which a change of the password goes on. -/
def Device.Quiet (d : Device) : Prop :=
  ∀ raw ∈ d.get rotationSlot, isRollbackFailedRotationRecord P raw

/-- Only passwords that were set have the verifier that is stored. -/
def Device.Distinguishes (d : Device) (password : CodeUnits) : Prop :=
  d.Accepts P password → password ∈ d.passwords

/-- What the callers of an operation take care of: the first password is configured once, and no
secrets are stored and no password is changed before an interrupted change has gone on. -/
def Admissible (d : Device) (e : Event) : Prop :=
  match e.operation with
  | .configurePassword _ => present (d.get verifierSlot) = none
  | .verifyPassword password => d.Distinguishes P password
  | .writeSecretString key _ => d.Quiet P ∧ key ∉ stateKeys
  | .writeAccountMnemonic _ _ => d.Quiet P
  | .delete key => key ∉ stateKeys
  | .changePassword currentPassword _ => d.Quiet P ∧ d.Distinguishes P currentPassword
  | _ => True

variable {P} {d d' : Device} {slot : Slot} {key value password : CodeUnits} {plain : Bytes}
  {entries : List (Slot × CodeUnits)}

/-! ## One step -/

theorem Device.Quiet.writable (hquiet : d.Quiet P) (hsound : d.Sound P) : d.Writable P := by
  obtain hsettled | ⟨rotation, old, new, hpending⟩ | hfailed := hsound.state
  · exact .inl hsettled
  · obtain ⟨raw, hraw, -, hmarked, -⟩ := hpending.record
    rw [hquiet raw hraw] at hmarked
    cases hmarked
  · exact .inr hfailed

theorem Device.Sound.random (hsound : d.Sound P) (random : List Bytes) :
    ({ d with random := random } : Device).Sound P :=
  hsound.session_change rfl rfl rfl hsound.session

theorem Device.Sound.restart (hsound : d.Sound P) : d.restart.Sound P :=
  hsound.session_change rfl rfl rfl fun _ h => by cases h

theorem Device.Sound.mutation (hsound : d.Sound P) (pending : Bool) :
    ({ d with hasPendingMutation := pending } : Device).Sound P :=
  hsound.session_change rfl rfl rfl hsound.session

/-- What holds of a mutation also holds when it has ended. -/
theorem runMutation_spec {α : Type} {action : Eff α} {ok : α → Device → Prop}
    {fail : Interrupt StoreError → Device → Prop}
    (h : always action ok fail { d with hasPendingMutation := true })
    (hok : ∀ a d', ok a d' → ok a { d' with hasPendingMutation := false })
    (hfail : ∀ e d', fail e d' → fail e { d' with hasPendingMutation := false }) :
    always (runMutation action) ok fail d := by
  refine always_bind (always_change (always_bind (always_rescue (always_mono
    (fun a d' ha => always_bind (always_change (always_pure (hok a d' ha)))) (fun e d' he =>
      ⟨fun error heq => always_bind (always_change (always_raise ?_)), fun heq => heq ▸ he⟩) h))))
  exact hfail _ d' (heq ▸ he)

theorem runMutation_changePassword_spec (hP : P.Faithful) {old new : CodeUnits}
    (hsound : d.Sound P) (hquiet : d.Quiet P) (hknown : d.Distinguishes P old) :
    always (runMutation (changePassword P old new))
      (fun changed d' => if changed then Changed P d new d' else Unchanged P d old new d')
      (fun e d' => Unchanged P d old new d' ∨ e = .killed ∧ Changed P d new d') d := by
  have hagree : Agree d { d with hasPendingMutation := true } := ⟨rfl, rfl, rfl, rfl, rfl⟩
  have hchanged {d' : Device} (h : Changed P { d with hasPendingMutation := true } new d') :
      Changed P d new d' := ⟨h.sound, h.saved, h.under, h.accepts⟩
  have hunchanged {d' : Device} (h : Unchanged P { d with hasPendingMutation := true } old new d') :
      Unchanged P d old new d' := ⟨h.sound, h.saved, h.passwords⟩
  have hended {d' : Device} (h : Changed P d new d') :
      Changed P d new { d' with hasPendingMutation := false } :=
    ⟨h.sound.mutation false, h.saved, h.under, h.accepts⟩
  have hended' {d' : Device} (h : Unchanged P d old new d') :
      Unchanged P d old new { d' with hasPendingMutation := false } :=
    ⟨h.sound.mutation false, h.saved, h.passwords⟩
  refine runMutation_spec (always_mono ?_
    (fun e d' h => h.imp hunchanged fun h => ⟨h.1, hchanged h.2⟩) (changePassword_spec hP
      (hsound.mutation true) (hagree.writable (hquiet.writable hsound)) rfl
      hknown)) ?_ fun e d' h => h.imp hended' fun h => ⟨h.1, hended h.2⟩
  · intro changed d' h
    cases changed with
    | false => exact hunchanged h
    | true => exact hchanged h
  · intro changed d' h
    cases changed with
    | false => exact hended' h
    | true => exact hended h

/-- Whatever happens at its accesses, an operation keeps a store sound. -/
theorem perform_spec (hP : P.Faithful) {e : Event} (hsound : d.Sound P) (hok : Admissible P d e) :
    always (perform P e.operation) (fun _ d' => d'.Sound P) (fun _ d' => d'.Sound P) d := by
  obtain ⟨operation, script, random⟩ := e
  cases operation with
  | boot =>
    refine always_bind (always_change ?_)
    exact always_mono (fun _ _ h => h.1) (fun _ _ h => h.1)
      (recoverInterruptedPasswordRotation_spec hP hsound.restart rfl)
  | configurePassword password =>
    exact runMutation_spec (configurePassword_spec hP (hsound.mutation true) hok)
      (fun _ _ h => h.mutation false) fun _ _ h => h.mutation false
  | verifyPassword password =>
    exact always_bind_keep (verifyPassword_spec hsound hok) fun _ _ h => always_pure h
  | lock => exact always_change hsound.lock
  | switchAccount => exact always_change (hsound.session_change rfl rfl rfl hsound.session)
  | writeSecretString key value =>
    exact writeSecret_spec hP hsound (hok.1.writable hsound) (ne_of_key hok.2)
  | writeAccountMnemonic accountUuid value =>
    exact writeSecret_spec hP hsound (Device.Quiet.writable hok hsound)
      (ne_of_managed (managed_accountMnemonicKey (P := P) accountUuid))
  | readAccountMnemonicBytes accountUuid requireUnlockedSession =>
    exact always_then (readAccountMnemonicBytes_spec hP hsound) (fun _ _ h => always_pure h.1)
      fun _ _ h => h
  | delete key => exact deleteSecret_spec hsound hok
  | changePassword currentPassword newPassword =>
    refine always_then (runMutation_changePassword_spec hP hsound hok.1 hok.2)
      (fun changed _ h => ?_) fun _ _ h => h.elim Unchanged.sound fun h => h.2.sound
    cases changed with
    | false => exact always_pure h.sound
    | true => exact always_pure h.sound

/-- A step keeps a store sound. -/
theorem step_sound (hP : P.Faithful) {e : Event} (hsound : d.Sound P) (hok : Admissible P d e) :
    (step P d e).Sound P := by
  have hok' : Admissible P { d with random := e.random } e := hok
  have hperform := perform_spec hP (hsound.random e.random) hok' e.script
  unfold wp at hperform
  unfold step
  rcases hrun : (perform P e.operation).run.run ⟨{ d with random := e.random }, e.script⟩ with
    ⟨(_ | _) | _, s⟩
  · rw [hrun] at hperform
    exact hperform
  · rw [hrun] at hperform
    exact hperform.restart
  · rw [hrun] at hperform
    exact hperform

theorem sound_installed : (installed entries).Sound P := by
  have hget {key : CodeUnits} (hkey : key ∈ stateKeys) :
      (installed entries).get ⟨.general, key⟩ = none := by
    rw [Device.get, installed]
    refine List.lookup_eq_none_iff.2 fun entry hentry => ?_
    obtain ⟨-, hfree⟩ := List.mem_filter.1 hentry
    rw [bne_iff_ne]
    intro heq
    simp [← heq, hkey] at hfree
  refine ⟨fun _ h => ?_, fun _ _ h => ?_, fun _ _ _ h => ?_, fun _ h => ?_, fun _ h => ?_,
    .inl ⟨hget (by decide), ?_⟩⟩
  · cases h
  · cases h
  · cases h
  · cases h
  · cases h
  · refine .inl ⟨rfl, ?_⟩
    rw [hget (by decide)]
    rfl

/-- Reached stores are sound. -/
theorem sound_reached (hP : P.Faithful) (h : (system P entries).Reaches (Admissible P) d) :
    d.Sound P := by
  refine h.invariant sound_installed fun d e d' hsound hok hstep => ?_
  obtain rfl := Option.some.inj hstep
  exact step_sound hP hsound hok

/-! ## A toy cipher, and a run with it -/

section Sample

def samplePayload (nonce cipherText mac : CodeUnits) : Value Unit := .map [
  (literal "v", .int 1), (literal "n", .string nonce), (literal "c", .string cipherText),
  (literal "m", .string mac)]

def sampleRecord (salt verifier key rotatedValue : CodeUnits) : Value Unit := .map [
  (literal "v", .int 1), (literal "newVerifierSalt", .string salt),
  (literal "newVerifier", .string verifier),
  (literal "entries", .list [.map [
    (literal "key", .string key), (literal "rotatedValue", .string rotatedValue)]])]

def sampleEncode (value : Value Unit) : Option CodeUnits :=
  match value with
  | .map [(v, .int i), (n, .string nonce), (c, .string cipherText), (m, .string mac)] =>
    if nonce.length = 12 ∧ mac.length = 16 ∧ i = 1 ∧
        [v, n, c, m] = ["v", "n", "c", "m"].map literal then
      some (1 :: (nonce ++ mac ++ cipherText))
    else
      none
  | .map [(v, .int i), (s, .string salt), (w, .string verifier),
      (e, .list [.map [(k, .string key), (r, .string rotatedValue)]])] =>
    if salt.length = 16 ∧ verifier.length = 32 ∧ key = accountMnemonicKey (literal "u") ∧ i = 1 ∧
        [v, s, w, e, k, r] =
          ["v", "newVerifierSalt", "newVerifier", "entries", "key", "rotatedValue"].map literal then
      some (2 :: (salt ++ verifier ++ rotatedValue))
    else
      none
  | _ => none

def sampleDecode (text : CodeUnits) : Option (Value Unit) :=
  match text with
  | [] => none
  | kind :: text =>
    if kind = 1 then some (samplePayload (text.take 12) (text.drop 28) ((text.drop 12).take 16))
    else if kind = 2 then some (sampleRecord (text.take 16) ((text.drop 16).take 32)
      (accountMnemonicKey (literal "u")) (text.drop 48))
    else none

theorem sampleDecode_payload {nonce cipherText mac : CodeUnits} (hnonce : nonce.length = 12)
    (hmac : mac.length = 16) :
    sampleDecode (1 :: (nonce ++ mac ++ cipherText)) =
      some (samplePayload nonce cipherText mac) := by
  have hboth : (nonce ++ mac).length = 28 := by rw [List.length_append, hnonce, hmac]
  rw [sampleDecode, if_pos rfl, List.drop_left' hboth, List.append_assoc, List.take_left' hnonce,
    List.drop_left' hnonce, List.take_left' hmac]

theorem sampleDecode_record {salt verifier rotatedValue : CodeUnits} (hsalt : salt.length = 16)
    (hverifier : verifier.length = 32) :
    sampleDecode (2 :: (salt ++ verifier ++ rotatedValue)) =
      some (sampleRecord salt verifier (accountMnemonicKey (literal "u")) rotatedValue) := by
  have hboth : (salt ++ verifier).length = 48 := by rw [List.length_append, hsalt, hverifier]
  rw [sampleDecode, if_neg (by decide), if_pos rfl, List.drop_left' hboth, List.append_assoc,
    List.take_left' hsalt, List.drop_left' hsalt, List.take_left' hverifier]

theorem sampleDecode_sampleEncode {value : Value Unit} {text : CodeUnits}
    (h : sampleEncode value = some text) : sampleDecode text = some value := by
  unfold sampleEncode at h
  split at h
  · split_ifs at h with hshape
    obtain ⟨hnonce, hmac, rfl, hkeys⟩ := hshape
    simp only [List.map_cons, List.map_nil, List.cons.injEq, and_true] at hkeys
    obtain ⟨rfl, rfl, rfl, rfl⟩ := hkeys
    obtain rfl := Option.some.inj h
    exact sampleDecode_payload hnonce hmac
  · split_ifs at h with hshape
    obtain ⟨hsalt, hverifier, rfl, rfl, hkeys⟩ := hshape
    simp only [List.map_cons, List.map_nil, List.cons.injEq, and_true] at hkeys
    obtain ⟨rfl, rfl, rfl, rfl, rfl, rfl⟩ := hkeys
    obtain rfl := Option.some.inj h
    exact sampleDecode_record hsalt hverifier
  · cases h

def samplePackages : Packages Unit where
  enforcesSessionGeneration := true
  usesSeparateMacOsMnemonicStorage := false
  walletPasswordMinLength := 1
  jsonEncode := sampleEncode
  jsonDecode := sampleDecode
  equalsInt _ _ := false
  utf8Encode := toBytes
  base64Encode := ofBytes
  base64Decode text := some (toBytes text)
  pbkdf2 password salt _ length := (password ++ salt ++ List.replicate length 0).take length
  aesEncrypt key _ clearText := some (clearText ++ (key ++ List.replicate 16 0).take 16)
  aesDecrypt key _ cipherText :=
    if cipherText.drop (cipherText.length - 16) = (key ++ List.replicate 16 0).take 16 then
      some (cipherText.take (cipherText.length - 16))
    else none

theorem samplePackages_faithful : samplePackages.Faithful where
  jsonDecode_jsonEncode := sampleDecode_sampleEncode
  jsonDecode_nil := rfl
  base64Decode_base64Encode bytes := congrArg some (toBytes_ofBytes bytes)
  base64Encode_ne_nil h hnil := h (List.map_eq_nil_iff.1 hnil)
  length_pbkdf2 password salt _ length := by
    rw [samplePackages, List.length_take, List.length_append, List.length_replicate]
    omega
  aesDecrypt_aesEncrypt {key nonce clearText cipherText} h := by
    obtain rfl := Option.some.inj h
    have htag : ((key ++ List.replicate 16 0).take 16).length = 16 := by
      rw [List.length_take, List.length_append, List.length_replicate]
      omega
    have hlength : (clearText ++ (key ++ List.replicate 16 0).take 16).length - 16 =
        clearText.length := by
      rw [List.length_append, htag, Nat.add_sub_cancel]
    simp only [samplePackages]
    rw [hlength, List.drop_left, if_pos rfl, List.take_left]

def sampleConfigure : Event :=
  ⟨.configurePassword (literal "old"), [], [List.replicate 16 1]⟩

def sampleWrite : Event where
  operation := .writeAccountMnemonic (literal "u") (literal "words")
  script := []
  random := [List.replicate 16 2, List.replicate 12 3]

def sampleDevice : Device :=
  step samplePackages (step samplePackages (installed []) sampleConfigure) sampleWrite

theorem sampleDevice_reached :
    (system samplePackages []).Reaches (Admissible samplePackages) sampleDevice := by
  have hconfigure : Admissible samplePackages (installed []) sampleConfigure := rfl
  have hwrite : Admissible samplePackages (step samplePackages (installed []) sampleConfigure)
      sampleWrite := fun raw hraw => by cases hraw
  exact .step (.step .init hconfigure rfl) hwrite rfl

theorem sampleDevice_quiet : sampleDevice.Quiet samplePackages := fun raw hraw => by cases hraw

theorem sampleDevice_distinguishes :
    sampleDevice.Distinguishes samplePackages (literal "old") :=
  fun _ => List.mem_singleton_self (literal "old")

/-- The process ends while the first secret is stored under the new password. -/
def sampleCut : Event where
  operation := .changePassword (literal "old") (literal "new")
  script := List.replicate 9 none ++ [some (.killed true)]
  random := [List.replicate 12 4, List.replicate 16 5]

theorem sampleCut_reached : (system samplePackages []).Reaches (Admissible samplePackages)
    (step samplePackages sampleDevice sampleCut) := by
  have hcut : Admissible samplePackages sampleDevice sampleCut :=
    ⟨sampleDevice_quiet, sampleDevice_distinguishes⟩
  exact sampleDevice_reached.step hcut rfl

end Sample

/-! ## What holds in every run -/

theorem Device.Sound.settled (hsound : d.Sound P) (hrecord : d.get rotationSlot = none) :
    d.Settled P := by
  obtain hsettled | ⟨rotation, old, new, hpending⟩ | hfailed := hsound.state
  · exact hsettled
  · obtain ⟨raw, hraw, -⟩ := hpending.record
    rw [hrecord] at hraw
    cases hraw
  · obtain ⟨raw, hraw, -⟩ := hfailed.record
    rw [hrecord] at hraw
    cases hraw

/-- Every secret opens under a password that the store knows, and under the one that is accepted
when no change of the password is recorded. -/
theorem secrets_open (hP : P.Faithful) (h : (system P entries).Reaches (Admissible P) d)
    (hslot : Managed P slot) (hplain : d.saved slot = some plain) :
    ∃ value password, d.get slot = some value ∧ password ∈ d.passwords ∧
      decryptSecretPayload P value password d.salt = .ok plain ∧
      (d.get rotationSlot = none → d.passwords = [password] ∧ d.Accepts P password) := by
  have hsound := sound_reached hP h
  obtain ⟨value, hget, password, hpassword, hopens⟩ := hsound.opens_get hslot hplain
  exact ⟨value, password, hget, hpassword, hopens, fun hrecord =>
    (hsound.settled hrecord).accepts hpassword⟩

/-- The words open before a change of the password, and when the process has ended during it. -/
theorem secrets_open_sample :
    (∃ value password, sampleDevice.get ⟨.general, accountMnemonicKey (literal "u")⟩ = some value ∧
      password ∈ sampleDevice.passwords ∧
      decryptSecretPayload samplePackages value password sampleDevice.salt =
        .ok (toBytes (literal "words")) ∧
      (sampleDevice.get rotationSlot = none → sampleDevice.passwords = [password] ∧
        sampleDevice.Accepts samplePackages password)) ∧
    ∃ value password, (step samplePackages sampleDevice sampleCut).get
        ⟨.general, accountMnemonicKey (literal "u")⟩ = some value ∧
      password ∈ (step samplePackages sampleDevice sampleCut).passwords ∧
      decryptSecretPayload samplePackages value password
        (step samplePackages sampleDevice sampleCut).salt = .ok (toBytes (literal "words")) := by
  have hslot := managed_accountMnemonicKey (P := samplePackages) (literal "u")
  obtain ⟨value, password, hget, hpassword, hopens, -⟩ :=
    secrets_open samplePackages_faithful sampleCut_reached hslot rfl
  exact ⟨secrets_open samplePackages_faithful sampleDevice_reached hslot rfl,
    value, password, hget, hpassword, hopens⟩

/-- All secrets that a change of the password is about can be read with a password. -/
def Device.Readable (P : Packages Double) (d : Device) (password : CodeUnits) : Prop :=
  ∀ slot, Managed P slot → ∀ plain, d.saved slot = some plain →
    ∃ value, d.get slot = some value ∧ decryptSecretPayload P value password d.salt = .ok plain

theorem Device.Sound.readable (hsound : d.Sound P) (hunder : d.Under P password) :
    d.Readable P password := by
  intro slot hslot plain hplain
  obtain ⟨value, hget, -⟩ := hsound.opens_get hslot hplain
  exact ⟨value, hget, hunder slot hslot plain hplain value (Device.mem_of_get hget)⟩

/-- A change of the password that succeeds ends in the new password. One that does not, and whose
record is gone, has left the password that there was. -/
theorem change_ends (hP : P.Faithful) {old new : CodeUnits}
    {script : List (Option (Fault Interference))} {random : List Bytes}
    {ended : Except (Interrupt StoreError) Bool}
    {s : Faulty Interference Device} (h : (system P entries).Reaches (Admissible P) d)
    (hquiet : d.Quiet P) (hknown : d.Distinguishes P old)
    (hrun : (runMutation (changePassword P old new)).run.run ⟨{ d with random := random }, script⟩ =
      (ended, s)) :
    s.device.saved = d.saved ∧
      (ended = .ok true → s.device.Accepts P new ∧ s.device.Readable P new) ∧
      (ended ≠ .ok true → ended ≠ .error .killed → s.device.get rotationSlot = none →
        ∀ password ∈ d.passwords, s.device.passwords = [password] ∧
          s.device.Accepts P password ∧ s.device.Readable P password) := by
  have hunchanged (hend : Unchanged P { d with random := random } old new s.device)
      (hrecord : s.device.get rotationSlot = none) : ∀ password ∈ d.passwords,
      s.device.passwords = [password] ∧ s.device.Accepts P password ∧
        s.device.Readable P password := by
    intro password hpassword
    have hsettled := hend.sound.settled hrecord
    have hpasswords : s.device.passwords = d.passwords := by
      refine hend.passwords.resolve_right fun hboth => ?_
      have hold : old ∈ s.device.passwords := hboth ▸ List.mem_cons_self
      rw [(hsettled.accepts hold).1] at hboth
      cases hboth
    obtain ⟨hone, haccepts⟩ := hsettled.accepts (hpasswords ▸ hpassword)
    exact ⟨hone, haccepts, hend.sound.readable (under_of_settled hend.sound hone)⟩
  have hspec : wp (runMutation (changePassword P old new))
      (fun changed s => if changed then Changed P { d with random := random } new s.device
        else Unchanged P { d with random := random } old new s.device)
      (fun e s => Unchanged P { d with random := random } old new s.device ∨
        e = .killed ∧ Changed P { d with random := random } new s.device)
      ⟨{ d with random := random }, script⟩ :=
    runMutation_changePassword_spec hP ((sound_reached hP h).random random) hquiet hknown script
  rw [wp_iff] at hspec
  rcases ended with e | (_ | _)
  · have hend := hspec.2 e s hrun
    refine ⟨hend.elim Unchanged.saved fun hend => hend.2.saved, fun heq => (by cases heq),
      fun _ hkilled hrecord => hunchanged (hend.resolve_right fun hend => ?_) hrecord⟩
    exact hkilled (congrArg Except.error hend.1)
  · have hend : Unchanged P { d with random := random } old new s.device := hspec.1 false s hrun
    exact ⟨hend.saved, fun heq => (by cases heq), fun _ _ hrecord => hunchanged hend hrecord⟩
  · have hend : Changed P { d with random := random } new s.device := hspec.1 true s hrun
    exact ⟨hend.saved, fun _ => ⟨hend.accepts, hend.sound.readable hend.under⟩,
      fun hne => absurd rfl hne⟩

def sampleChange : Except (Interrupt StoreError) Bool × Faulty Interference Device :=
  (runMutation (changePassword samplePackages (literal "old") (literal "new"))).run.run
    ⟨{ sampleDevice with random := sampleCut.random }, []⟩

theorem change_ends_sample : sampleChange.2.device.Accepts samplePackages (literal "new") ∧
    sampleChange.2.device.Readable samplePackages (literal "new") := by
  have hrun : (runMutation (changePassword samplePackages (literal "old") (literal "new"))).run.run
      ⟨{ sampleDevice with random := sampleCut.random }, []⟩ = (.ok true, sampleChange.2) := rfl
  exact (change_ends samplePackages_faithful sampleDevice_reached sampleDevice_quiet
    sampleDevice_distinguishes hrun).2.1 rfl

end VizorWallet.SecureStore
