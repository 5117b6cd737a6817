import VizorWallet.Library.Assoc
import VizorWallet.Library.Faults
import VizorWallet.SecureStore.Payload

/-!
# The secure store of the app

`AppSecureStore`: the wallet password, the secrets that are encrypted under it, and the change of
the password. Secrets are kept by the key storage of the system, whose accesses may fail, and the
process may end at any of them. A change of the password writes what it is going to store first, and
goes on from there when the app starts again.

The state also has the history that no code reads: what secrets were stored, and which passwords
they may be encrypted under.

## Main definitions

* `Device` — the stored entries and the session.
* `PasswordRotationRecord` — what a change of the password is going to store.
* `changePassword`, `recoverInterruptedPasswordRotation` — the change of the password.
* `writeSecretString`, `readAccountMnemonicBytes`, … — the other operations.
-/

namespace VizorWallet.SecureStore

open CodeUnits PaymentLink Effect

/-! ## The device -/

/-- The two services of the key storage. -/
inductive Service
  | general
  | mnemonic
  deriving DecidableEq

structure Slot where
  service : Service
  key : CodeUnits
  deriving DecidableEq

inductive StoreError
  | argumentError (message : String)
  | stateError (message : CodeUnits)
  /-- `SecureStorageUnavailableException` -/
  | unavailable (operation : CodeUnits)
  /-- `SecureStorageSessionChangedException` -/
  | sessionChanged
  /-- `PasswordRotationRecoveryFailedException` -/
  | recoveryFailed
  /-- What the cipher and JSON throw. -/
  | other (message : String)

structure Device where
  entries : List (Slot × CodeUnits)
  sessionPassword : Option CodeUnits
  sessionGeneration : ℕ
  /-- A change of the wallet has the keyring coordinator. -/
  hasPendingMutation : Bool
  /-- What the random generators give next. -/
  random : List Bytes
  /-- The secrets that are stored. -/
  saved : Slot → Option Bytes
  /-- The passwords that they may be encrypted under. -/
  passwords : List CodeUnits

/-- What the app does while an operation waits. -/
inductive Interference
  /-- `clearSessionPassword` -/
  | locks
  /-- `invalidatePendingSecretOperations` -/
  | invalidates
  deriving DecidableEq

abbrev Eff := Effect (Interrupt StoreError) (Faulty Interference Device)

variable {Double : Type} (P : Packages Double)

namespace Device

variable (d : Device)

def get (slot : Slot) : Option CodeUnits := d.entries.lookup slot

def put (slot : Slot) (value : CodeUnits) : Device :=
  { d with entries := insertKey slot value d.entries }

def remove (slot : Slot) : Device := { d with entries := d.entries.filter (·.1 ≠ slot) }

/-- The entries of a service. -/
def readAll (service : Service) : List (CodeUnits × CodeUnits) :=
  (d.entries.filter (·.1.service = service)).map fun entry => (entry.1.key, entry.2)

def clearSessionPassword : Device := { d with
  sessionGeneration :=
    if P.enforcesSessionGeneration then d.sessionGeneration + 1 else d.sessionGeneration
  sessionPassword := none }

def setSessionPassword (password : CodeUnits) : Device := { d with
  sessionGeneration :=
    if P.enforcesSessionGeneration then d.sessionGeneration + 1 else d.sessionGeneration
  sessionPassword := some password }

def invalidatePendingSecretOperations : Device := { d with
  sessionGeneration :=
    if P.enforcesSessionGeneration then d.sessionGeneration + 1 else d.sessionGeneration }

def isSessionGenerationCurrent (generation : ℕ) : Bool :=
  !P.enforcesSessionGeneration || generation = d.sessionGeneration

/-- The secrets may be encrypted under these passwords. -/
def known (passwords : List CodeUnits) : Device := { d with passwords := passwords }

/-- The process starts again. -/
def restart : Device :=
  { d with sessionPassword := none, sessionGeneration := 0, hasPendingMutation := false }

end Device

def act : Interference → Device → Device
  | .locks, d => d.clearSessionPassword P
  -- switching accounts is refused while another change of the wallet is pending
  | .invalidates, d => if d.hasPendingMutation then d else d.invalidatePendingSecretOperations P

def raise {α : Type} (error : StoreError) : Eff α := throw (.thrown error)

/-- What the cipher and JSON return. -/
def rust {α : Type} (x : Except String α) : Eff α :=
  outcome (x.mapError fun e => .thrown (.other e))

def checkSessionGeneration (generation : ℕ) : Eff Unit := do
  let d ← device
  require (d.isSessionGenerationCurrent P generation) (.thrown .sessionChanged)

/-- `runMutation`, when no other one is pending. -/
def runMutation {α : Type} (action : Eff α) : Eff α := do
  change ({ · with hasPendingMutation := true })
  let result ← rescue action fun error => do
    change ({ · with hasPendingMutation := false })
    raise error
  change ({ · with hasPendingMutation := false })
  return result

/-- `_runStorageOperation` -/
def runStorageOperation (operation : CodeUnits) (f : Device → Device) : Eff Device :=
  access (act P) (.unavailable operation) f

/-- An operation on a key: its name and the key in quotes. -/
def named (operation : String) (key : CodeUnits) : CodeUnits :=
  literal operation ++ literal " \"" ++ key ++ literal "\""

def readSlot (operation : CodeUnits) (slot : Slot) : Eff (Option CodeUnits) :=
  (·.get slot) <$> runStorageOperation P operation id

def readAll (operation : CodeUnits) (service : Service) : Eff (List (CodeUnits × CodeUnits)) :=
  (·.readAll service) <$> runStorageOperation P operation id

def writeSlot (operation : CodeUnits) (slot : Slot) (value : CodeUnits) : Eff Device :=
  runStorageOperation P operation (·.put slot value)

def deleteSlot (operation : CodeUnits) (slot : Slot) : Eff Device :=
  runStorageOperation P operation (·.remove slot)

def readPlain (key : CodeUnits) : Eff (Option CodeUnits) :=
  readSlot P (named "read" key) ⟨.general, key⟩

def writePlain (key value : CodeUnits) : Eff Device :=
  writeSlot P (named "write" key) ⟨.general, key⟩ value

def randomBytes (length : ℕ) : Eff Bytes := do
  let d ← device
  change ({ · with random := d.random.tail })
  return (d.random.headD [] ++ List.replicate length 0).take length

/-! ## Keys -/

def secureStoreSaltKey : CodeUnits := literal "zcash_secure_store_salt"

def passwordVerifierKey : CodeUnits := literal "zcash_password_verifier"

def passwordVerifierSaltKey : CodeUnits := literal "zcash_password_verifier_salt"

def passwordRotationInProgressKey : CodeUnits := literal "zcash_rotation_in_progress"

def passwordRotationRollbackFailedKind : CodeUnits := literal "rollbackFailed"

def accountMnemonicKeyPrefix : CodeUnits := literal "zcash_account_mnemonic_"

def accountMnemonicMigrationCompleteKey : CodeUnits := literal "zcash_mnemonic_storage_migrated_v1"

def votingHotkeyKeyPrefix : CodeUnits := literal "zcash_account_voting_hotkey_"

def contactSecretKeyPrefix : CodeUnits := literal "zcash_contact_"

def paymentLinkRecoveryStorageKey : CodeUnits := literal "zcash_gift_card_recovery_v1"

def paymentLinkReceivedStorageKey : CodeUnits := literal "zcash_gift_card_received_v1"

def isAccountMnemonicKey (key : CodeUnits) : Bool := accountMnemonicKeyPrefix.isPrefixOf key

def isAppManagedGeneralSecretKey (key : CodeUnits) : Bool :=
  votingHotkeyKeyPrefix.isPrefixOf key || contactSecretKeyPrefix.isPrefixOf key ||
    key = paymentLinkRecoveryStorageKey || key = paymentLinkReceivedStorageKey

def accountMnemonicKey (accountUuid : CodeUnits) : CodeUnits :=
  accountMnemonicKeyPrefix ++ accountUuid

/-- The service of `_mnemonicStorage`. -/
def mnemonicService : Service :=
  if P.usesSeparateMacOsMnemonicStorage then .mnemonic else .general

/-- `_encryptedSecretStorageForKey` -/
def encryptedSecretSlot (key : CodeUnits) : Slot :=
  ⟨if isAccountMnemonicKey key then mnemonicService P else .general, key⟩

/-! ## Passwords -/

/-- `validateRequiredWalletPassword` -/
def validateRequiredWalletPassword (value : CodeUnits) : Option String :=
  let minLengthMessage :=
    "Password must be at least " ++ toString P.walletPasswordMinLength ++ " characters."
  if value = [] then some minLengthMessage
  else if ¬ value.all fun u => 0x21 ≤ u && u ≤ 0x7e then
    some "Use only English letters, numbers, and symbols."
  else if value.length < P.walletPasswordMinLength then some minLengthMessage
  else none

def isWalletPasswordValid (value : CodeUnits) : Bool :=
  (validateRequiredWalletPassword P value).isNone

/-- A text that is stored, and not empty. -/
def present (text : Option CodeUnits) : Option CodeUnits := text.filter (· ≠ [])

def verifyPasswordOnly (password : CodeUnits) : Eff Bool := do
  let generation := (← device).sessionGeneration
  if ¬ isWalletPasswordValid P password then
    return false
  let encodedSalt ← readPlain P passwordVerifierSaltKey
  checkSessionGeneration P generation
  let storedVerifier ← readPlain P passwordVerifierKey
  checkSessionGeneration P generation
  match present encodedSalt, present storedVerifier with
  | some encodedSalt, some storedVerifier => do
    let derived ← rust (deriveSecretPasswordVerifier P password encodedSalt)
    checkSessionGeneration P generation
    return derived = storedVerifier
  | _, _ => return false

def configurePassword (password : CodeUnits) : Eff Unit := do
  let generation := (← device).sessionGeneration
  require (validateRequiredWalletPassword P password = none)
    (.thrown (.argumentError ((validateRequiredWalletPassword P password).getD "")))
  let salt ← randomBytes 16
  let saltBase64 := P.base64Encode salt
  let verifier ← rust (deriveSecretPasswordVerifier P password saltBase64)
  checkSessionGeneration P generation
  let _ ← writePlain P passwordVerifierSaltKey saltBase64
  let _ ← runStorageOperation P (named "write" passwordVerifierKey) fun d =>
    (d.put ⟨.general, passwordVerifierKey⟩ verifier).known [password]
  if (← device).isSessionGenerationCurrent P generation then
    change (·.setSessionPassword P password)

def getOrCreateSaltBase64 (generation : Option ℕ) : Eff CodeUnits := do
  let encoded ← readPlain P secureStoreSaltKey
  generation.forM (checkSessionGeneration P)
  match present encoded with
  | some encoded => return encoded
  | none => do
    let generated := P.base64Encode (← randomBytes 16)
    let _ ← writePlain P secureStoreSaltKey generated
    generation.forM (checkSessionGeneration P)
    return generated

/-! ## Account mnemonics of older versions on macOS -/

structure AccountMnemonicMigrationResult where
  mnemonicsAvailable : Bool
  legacyCleanupComplete : Bool

/-- Move one entry; the copy and the removal may each fail. -/
def migrateAccountMnemonic (entry : CodeUnits × CodeUnits)
    (result : AccountMnemonicMigrationResult) : Eff AccountMnemonicMigrationResult := do
  let copied ← rescue (do
      let existing ← readSlot P (named "read migrated account mnemonic" entry.1)
        ⟨mnemonicService P, entry.1⟩
      if existing.isNone then
        let _ ← writeSlot P (named "write migrated account mnemonic" entry.1)
          ⟨mnemonicService P, entry.1⟩ entry.2
      return true)
    fun _ => return false
  if ¬ copied then
    return ⟨false, false⟩
  let removed ← rescue (do
      let _ ← deleteSlot P (named "delete legacy account mnemonic" entry.1) ⟨.general, entry.1⟩
      return true)
    fun _ => return false
  return { result with legacyCleanupComplete := result.legacyCleanupComplete && removed }

def migrateAccountMnemonics :
    List (CodeUnits × CodeUnits) → AccountMnemonicMigrationResult →
      Eff AccountMnemonicMigrationResult
  | [], result => return result
  | entry :: entries, result => do
    migrateAccountMnemonics entries (← migrateAccountMnemonic P entry result)

/-- `_migrateAccountMnemonicsAfterUnlockLocked` -/
def migrateAccountMnemonicsAfterUnlock : Eff AccountMnemonicMigrationResult := do
  if ¬ P.usesSeparateMacOsMnemonicStorage then
    return ⟨true, true⟩
  if (← readPlain P accountMnemonicMigrationCompleteKey) = some (literal "true") then
    return ⟨true, true⟩
  let legacyValues ← readAll P (literal "read legacy secure storage values") .general
  let result ← migrateAccountMnemonics P
    (legacyValues.filter fun entry => isAccountMnemonicKey entry.1) ⟨true, true⟩
  if result.legacyCleanupComplete then
    rescue (do
        let _ ← writePlain P accountMnemonicMigrationCompleteKey (literal "true"))
      fun _ => return ()
  return result

/-- Open the session, unless another one has begun. -/
def openSession (password : CodeUnits) (generation : ℕ) : Eff Bool := do
  change ({ · with sessionPassword := some password })
  -- what fails from here on closes the session
  rescue (do
      let migration ← migrateAccountMnemonicsAfterUnlock P
      checkSessionGeneration P generation
      if ¬ migration.mnemonicsAvailable then
        change (·.clearSessionPassword P)
        return false
      return true)
    fun
      | .sessionChanged => raise .sessionChanged
      | _ => do
        checkSessionGeneration P generation
        change (·.clearSessionPassword P)
        return false

/-- An attempt to unlock, in a generation of its own. -/
def attemptUnlock (password : CodeUnits) : Eff Bool := do
  let generation := (← device).sessionGeneration
  let isMatch ← verifyPasswordOnly P password
  checkSessionGeneration P generation
  if isMatch then
    openSession P password generation
  else
    return false

def verifyPassword (password : CodeUnits) : Eff Bool := do
  if P.enforcesSessionGeneration then
    change (·.clearSessionPassword P)
  attemptUnlock P password

/-! ## Secrets -/

def encryptBytesWithPassword (clearText : Bytes) (password saltBase64 : CodeUnits) :
    Eff CodeUnits := do
  let nonce ← randomBytes nonceLen
  rust (encryptSecretPayload P clearText password saltBase64 nonce)

def requireUnlocked : Eff CodeUnits := do
  let d ← device
  outcome (orError d.sessionPassword
    (.thrown (.stateError (literal "Secret storage requires an unlocked session."))))

/-- `_encryptSecretString` -/
def encryptSecretBytes (value : Bytes) (generation : ℕ) : Eff CodeUnits := do
  checkSessionGeneration P generation
  let password ← requireUnlocked
  let saltBase64 ← getOrCreateSaltBase64 P (some generation)
  checkSessionGeneration P generation
  let encrypted ← encryptBytesWithPassword P value password saltBase64
  checkSessionGeneration P generation
  return encrypted

def save (slot : Slot) (payload : CodeUnits) (secret : Bytes) (d : Device) : Device :=
  { d.put slot payload with saved := Function.update d.saved slot (some secret) }

def forget (slot : Slot) (d : Device) : Device :=
  { d.remove slot with saved := Function.update d.saved slot none }

/-- `_runStorageOperation`, for a body that checks the session before it writes. -/
def runCheckedStorageOperation (operation : CodeUnits) (generation : ℕ) (f : Device → Device) :
    Eff Device := do
  -- the body runs when the keyring coordinator lets it
  let _ ← runStorageOperation P operation id
  checkSessionGeneration P generation
  runStorageOperation P operation f

/-- Store a secret in a slot. -/
def writeSecret (operation : CodeUnits) (slot : Slot) (value : CodeUnits) : Eff Unit := do
  let generation := (← device).sessionGeneration
  checkSessionGeneration P generation
  let payload ← encryptSecretBytes P (P.utf8Encode value) generation
  checkSessionGeneration P generation
  let _ ← runCheckedStorageOperation P operation generation
    (save slot payload (P.utf8Encode value))

def writeSecretString (key value : CodeUnits) : Eff Unit :=
  writeSecret P (named "write secret" key) ⟨.general, key⟩ value

def writeAccountMnemonic (accountUuid value : CodeUnits) : Eff Unit :=
  writeSecret P (named "write account mnemonic" accountUuid)
    ⟨mnemonicService P, accountMnemonicKey accountUuid⟩ value

/-- `delete`, for the keys of secrets. -/
def deleteSecret (key : CodeUnits) : Eff Unit := do
  if isAccountMnemonicKey key then
    let _ ← runStorageOperation P (named "delete account mnemonic" key)
      (forget ⟨mnemonicService P, key⟩)
    if P.usesSeparateMacOsMnemonicStorage then
      rescue (do
          let _ ← deleteSlot P (named "delete legacy account mnemonic" key) ⟨.general, key⟩)
        fun _ => return ()
  else
    let _ ← runStorageOperation P (named "delete" key) (forget ⟨.general, key⟩)

/-- What `_decryptPayloadBytesForKey` throws. -/
def decryptPayloadBytesForKey (key payloadJson password saltBase64 : CodeUnits) : Eff Bytes :=
  outcome ((decryptSecretPayload P payloadJson password saltBase64).mapError fun e =>
    .thrown (.stateError (named "Failed to decrypt secure-storage value for" key ++ literal ": " ++
      literal e)))

/-- `_decryptStoredSecretBytes` -/
def decryptStoredSecretBytes (raw : Option CodeUnits) (key : CodeUnits)
    (requireUnlockedSession : Bool) (generation : ℕ) : Eff (Option Bytes) := do
  checkSessionGeneration P generation
  if requireUnlockedSession ∧ (← device).sessionPassword.isNone then
    return none
  let _ ← requireUnlocked
  match present raw with
  | none => return none
  | some raw => do
    if ¬ isEncryptedPayload P raw then
      return none
    let saltBase64 ← getOrCreateSaltBase64 P (some generation)
    checkSessionGeneration P generation
    let password ← outcome (orError (← device).sessionPassword
      (.thrown (.other "Null check operator used on a null value")))
    let secret ← decryptPayloadBytesForKey P key raw password saltBase64
    checkSessionGeneration P generation
    return some secret

def readAccountMnemonicBytes (accountUuid : CodeUnits) (requireUnlockedSession : Bool) :
    Eff (Option Bytes) := do
  let generation := (← device).sessionGeneration
  checkSessionGeneration P generation
  if requireUnlockedSession ∧ (← device).sessionPassword.isNone then
    return none
  let key := accountMnemonicKey accountUuid
  let raw ← readSlot P (named "read account mnemonic bytes" accountUuid) ⟨mnemonicService P, key⟩
  decryptStoredSecretBytes P raw key requireUnlockedSession generation

/-! ## The record of a change of the password -/

structure PasswordRotationEntry where
  key : CodeUnits
  rotatedValue : CodeUnits

structure PasswordRotationRollbackEntry where
  key : CodeUnits
  originalValue : CodeUnits

structure PasswordRotationRollbackSnapshot where
  oldVerifierSalt : Option CodeUnits
  oldVerifier : Option CodeUnits
  entries : List PasswordRotationRollbackEntry

structure PasswordRotationRecord where
  newVerifierSalt : CodeUnits
  newVerifier : CodeUnits
  entries : List PasswordRotationEntry

def PasswordRotationEntry.toJson (entry : PasswordRotationEntry) : Value Double :=
  .map [(literal "key", .string entry.key), (literal "rotatedValue", .string entry.rotatedValue)]

def PasswordRotationEntry.fromJson? (value : Value Double) : Option PasswordRotationEntry := do
  let entryJson ← value.map?
  let key ← (lookup entryJson "key").string?
  let rotatedValue ← (lookup entryJson "rotatedValue").string?
  return ⟨key, rotatedValue⟩

namespace PasswordRotationRecord

def toJson (record : PasswordRotationRecord) : Value Double := .map [
  (literal "v", .int 1),
  (literal "newVerifierSalt", .string record.newVerifierSalt),
  (literal "newVerifier", .string record.newVerifier),
  (literal "entries", .list (record.entries.map PasswordRotationEntry.toJson))]

def serialize (record : PasswordRotationRecord) : Except String CodeUnits :=
  orError (P.jsonEncode record.toJson) "JsonUnsupportedObjectError"

def fromJson? (value : Value Double) : Option PasswordRotationRecord := do
  let json ← value.map?
  guard (equalsNumber P (lookup json "v") 1)
  let entriesJson ← (lookup json "entries").list?
  let newVerifierSalt ← (lookup json "newVerifierSalt").string?
  let newVerifier ← (lookup json "newVerifier").string?
  let entries ← entriesJson.mapM PasswordRotationEntry.fromJson?
  return ⟨newVerifierSalt, newVerifier, entries⟩

def tryParse (raw : CodeUnits) : Option PasswordRotationRecord := P.jsonDecode raw >>= fromJson? P

end PasswordRotationRecord

def rollbackFailedJson : Value Double :=
  .map [(literal "v", .int 1), (literal "kind", .string passwordRotationRollbackFailedKind)]

/-- `_isRollbackFailedRotationRecord` -/
def isRollbackFailedRotationRecord (raw : CodeUnits) : Bool :=
  match P.jsonDecode raw with
  | some (.map json) => equalsNumber P (lookup json "v") 1 &&
    (lookup json "kind").string? = some passwordRotationRollbackFailedKind
  | _ => false

/-! ## The change of the password -/

abbrev rotationSlot : Slot := ⟨.general, passwordRotationInProgressKey⟩

/-- `_deleteRotationRecordBestEffort`, and the passwords that secrets may be under then. -/
def deleteRotationRecordBestEffort (left : List CodeUnits → List CodeUnits) : Eff Unit :=
  rescue (do
      let _ ← runStorageOperation P (named "delete" passwordRotationInProgressKey) fun d =>
        (d.remove rotationSlot).known (left d.passwords))
    fun _ => return ()

/-- Open the session under the password of the secrets, and delete the record. -/
def endPasswordRotation (password : CodeUnits) (generation : ℕ)
    (left : List CodeUnits → List CodeUnits) : Eff Unit := do
  if (← device).isSessionGenerationCurrent P generation then
    change (·.setSessionPassword P password)
  deleteRotationRecordBestEffort P left

def markRollbackFailedBestEffort : Eff Unit :=
  rescue (do
      let marker ← rust (orError (P.jsonEncode rollbackFailedJson) "JsonUnsupportedObjectError")
      let _ ← writePlain P passwordRotationInProgressKey marker)
    fun _ => return ()

def writeRotatedPasswordState (rotation : PasswordRotationRecord) : Eff Unit := do
  rotation.entries.forM fun entry => do
    let _ ← writeSlot P (named "write rotated secret" entry.key) (encryptedSecretSlot P entry.key)
      entry.rotatedValue
  let _ ← writePlain P passwordVerifierSaltKey rotation.newVerifierSalt
  let _ ← writePlain P passwordVerifierKey rotation.newVerifier

def restorePlain (key : CodeUnits) : Option CodeUnits → Eff Device
  | none => deleteSlot P (named "delete" key) ⟨.general, key⟩
  | some value => writePlain P key value

def rollbackPasswordRotation (rollback : PasswordRotationRollbackSnapshot)
    (currentPassword : CodeUnits) (generation : ℕ) : Eff Unit :=
  rescue (do
      rollback.entries.forM fun entry => do
        let _ ← writeSlot P (named "restore secret" entry.key) (encryptedSecretSlot P entry.key)
          entry.originalValue
      let _ ← restorePlain P passwordVerifierSaltKey rollback.oldVerifierSalt
      let _ ← restorePlain P passwordVerifierKey rollback.oldVerifier
      endPasswordRotation P currentPassword generation (List.take 1))
    fun _ => markRollbackFailedBestEffort P

/-- Encrypt the secrets among some entries under the new password. -/
def rotateEntries (currentPassword newPassword saltBase64 : CodeUnits) :
    List (CodeUnits × CodeUnits) →
      Eff (List (PasswordRotationEntry × PasswordRotationRollbackEntry))
  | [] => return []
  | (key, value) :: entries => do
    require (isEncryptedPayload P value)
      (.thrown (.stateError (named "Failed to parse secure-storage value for" key ++ literal ".")))
    let clearText ← decryptPayloadBytesForKey P key value currentPassword saltBase64
    let rotatedValue ← encryptBytesWithPassword P clearText newPassword saltBase64
    return (⟨key, rotatedValue⟩, ⟨key, value⟩) ::
      (← rotateEntries currentPassword newPassword saltBase64 entries)

/-- The change of the password from its record on. -/
def commitPasswordRotation (rotation : PasswordRotationRecord)
    (rollbackSnapshot : PasswordRotationRollbackSnapshot)
    (currentPassword newPassword : CodeUnits) (generation : ℕ) : Eff Bool := do
  let record ← rust (rotation.serialize P)
  let _ ← runStorageOperation P (named "write" passwordRotationInProgressKey) fun d =>
    (d.put rotationSlot record).known [currentPassword, newPassword]
  rescue (writeRotatedPasswordState P rotation) fun error => do
    rollbackPasswordRotation P rollbackSnapshot currentPassword generation
    raise error
  endPasswordRotation P newPassword generation (List.drop 1)
  return true

/-- The checks of `changePassword`. -/
def checkPasswordChange (currentPassword newPassword : CodeUnits) (generation : ℕ) : Eff Bool := do
  let existingRecoveryRecord ← readPlain P passwordRotationInProgressKey
  require (¬ existingRecoveryRecord.any (isRollbackFailedRotationRecord P))
    (.thrown .recoveryFailed)
  if ¬ isWalletPasswordValid P currentPassword then
    return false
  require (currentPassword ≠ newPassword) (.thrown (.argumentError "Use a different password."))
  require (validateRequiredWalletPassword P newPassword = none)
    (.thrown (.argumentError ((validateRequiredWalletPassword P newPassword).getD "")))
  let isCurrentPasswordValid ← verifyPasswordOnly P currentPassword
  checkSessionGeneration P generation
  return isCurrentPasswordValid

/-- What `changePassword` is going to store, and what there was. -/
def preparePasswordRotation (currentPassword newPassword : CodeUnits) (generation : ℕ) :
    Eff (PasswordRotationRecord × PasswordRotationRollbackSnapshot) := do
  let oldVerifierSalt ← readPlain P passwordVerifierSaltKey
  let oldVerifier ← readPlain P passwordVerifierKey
  let secretSaltBase64 ← getOrCreateSaltBase64 P none
  let migration ← migrateAccountMnemonicsAfterUnlock P
  require migration.legacyCleanupComplete (.thrown (.stateError
    (literal "Failed to migrate account mnemonics before password rotation.")))
  let storedValues ← readAll P (literal "read all account mnemonics") (mnemonicService P)
  let mnemonics ← rotateEntries P currentPassword newPassword secretSaltBase64
    (storedValues.filter fun entry => isAccountMnemonicKey entry.1)
  let appManagedSecretValues ← readAll P (literal "read all app-managed secrets") .general
  let secrets ← rotateEntries P currentPassword newPassword secretSaltBase64
    (appManagedSecretValues.filter fun entry => isAppManagedGeneralSecretKey entry.1)
  let newVerifierSaltBase64 := P.base64Encode (← randomBytes 16)
  let newVerifier ← rust (deriveSecretPasswordVerifier P newPassword newVerifierSaltBase64)
  checkSessionGeneration P generation
  return (⟨newVerifierSaltBase64, newVerifier, (mnemonics ++ secrets).map Prod.fst⟩,
    ⟨oldVerifierSalt, oldVerifier, (mnemonics ++ secrets).map Prod.snd⟩)

def changePassword (currentPassword newPassword : CodeUnits) : Eff Bool := do
  let generation := (← device).sessionGeneration
  checkSessionGeneration P generation
  if ← checkPasswordChange P currentPassword newPassword generation then
    let prepared ← preparePasswordRotation P currentPassword newPassword generation
    commitPasswordRotation P prepared.1 prepared.2 currentPassword newPassword generation
  else
    return false

def recoverInterruptedPasswordRotation : Eff Unit := do
  let raw ← readPlain P passwordRotationInProgressKey
  match present raw with
  | none => return ()
  | some raw => do
    if isRollbackFailedRotationRecord P raw then
      raise .recoveryFailed
    match PasswordRotationRecord.tryParse P raw with
    | none => do
      let _ ← deleteSlot P (named "delete" passwordRotationInProgressKey) rotationSlot
      raise (.stateError (literal "Password rotation recovery record is invalid."))
    | some rotation => do
      writeRotatedPasswordState P rotation
      deleteRotationRecordBestEffort P (List.drop 1)
      change (·.clearSessionPassword P)

end VizorWallet.SecureStore
