import Mathlib.Data.List.Dedup
import Mathlib.Data.List.Sort
import VizorWallet.Library.Assoc
import VizorWallet.Library.Bytes
import VizorWallet.Library.Faults

/-!
# The migration of keychain items

`KeychainAccessibilityMigrator`: items of the iOS keychain that other devices could restore are
stored again for this device only. The keychain cannot change an item's accessibility in place, so
an item is copied to a staging service, deleted, added again, and its copy deleted. An access may
fail, with or without effect, and the process may end at any of them.

The state also has what the app has stored, which no code reads.

## Main definitions

* `Device` — the keychain and the flags of completed migrations.
* `migrate` — one account.
* `ensureFirstUnlockThisDeviceOnly` — a whole service.
-/

namespace VizorWallet.Keychain

open Effect

/-! ## The keychain -/

inductive Accessibility
  | afterFirstUnlockThisDeviceOnly
  | afterFirstUnlock
  | other (name : String)
  deriving DecidableEq

def keychainAccessibilityTarget : Accessibility := .afterFirstUnlockThisDeviceOnly

def keychainAccessibilityLegacy : Accessibility := .afterFirstUnlock

def keychainAccessibilityMigrationStagingSuffix : String := ".accessibility-migration-v1"

def keychainAccessibilityMigrationAllowedServices : List String := [
  "com.keplr.vizor.secure_store",
  "com.keplr.vizor.ironwood.secure_store",
  "com.keplr.vizor.test.secure_store",
  "com.keplr.vizor.regtest.secure_store"]

def stagingService (service : String) : String :=
  service ++ keychainAccessibilityMigrationStagingSuffix

/-- `KeychainAccessibilityMigrationItem` -/
structure Item (Account Attributes : Type) where
  account : Account
  data : Bytes
  accessibility : Accessibility
  attributes : Attributes

/-- What is stored under an account. -/
def Item.content {Account Attributes : Type} (item : Item Account Attributes) :
    Bytes × Attributes :=
  (item.data, item.attributes)

def Item.forThisDevice {Account Attributes : Type} (item : Item Account Attributes) :
    Item Account Attributes :=
  { item with accessibility := keychainAccessibilityTarget }

/-- `KeychainAccessibilityMigrationError` -/
inductive MigrationError (Account : Type)
  | invalidService
  | duplicateAccount (account : Account)
  | conflictingCopies (account : Account)
  | unexpectedAccessibility (account : Account) (accessibility : Accessibility)
  /-- What the keychain answers to an operation. -/
  | keychain (operation : String)

variable {Account Attributes : Type}

structure Device (Account Attributes : Type) where
  items : String → List (Item Account Attributes)
  isComplete : String → Bool
  /-- What the app has stored. -/
  saved : String → Account → Option (Bytes × Attributes)

abbrev Eff (Account Attributes α : Type) :=
  Effect (Interrupt (MigrationError Account)) (Faulty Empty (Device Account Attributes)) α

variable [LinearOrder Account]

namespace Device

variable (d : Device Account Attributes)

def insert (service : String) (item : Item Account Attributes) : Device Account Attributes :=
  { d with items := Function.update d.items service (item :: d.items service) }

def remove (service : String) (account : Account) : Device Account Attributes :=
  let kept := (d.items service).filter (·.account ≠ account)
  { d with items := Function.update d.items service kept }

def markComplete (service : String) : Device Account Attributes :=
  { d with isComplete := Function.update d.isComplete service true }

/-- An item with the same account, in the same access group. -/
def has (accessGroup : Attributes → String) (service : String) (item : Item Account Attributes) :
    Bool :=
  (d.items service).any fun other =>
    other.account = item.account && accessGroup other.attributes = accessGroup item.attributes

end Device

def keychainAccess (operation : String)
    (f : Device Account Attributes → Device Account Attributes) :
    Eff Account Attributes (Device Account Attributes) :=
  access Empty.elim (.keychain operation) f

def items (service : String) : Eff Account Attributes (List (Item Account Attributes)) :=
  (·.items service) <$> keychainAccess "read" id

/-- Store an item again, for this device only. -/
def add (accessGroup : Attributes → String) (item : Item Account Attributes) (service : String) :
    Eff Account Attributes Unit := do
  let before ← keychainAccess "add" fun d =>
    if d.has accessGroup service item then d else d.insert service item.forThisDevice
  -- `errSecDuplicateItem`
  require (¬ before.has accessGroup service item) (.thrown (.keychain "add"))

def delete (service : String) (account : Account) : Eff Account Attributes Unit := do
  let _ ← keychainAccess "delete" (·.remove service account)

/-! ## The migration -/

def requireTarget (item : Item Account Attributes) : Eff Account Attributes Unit :=
  require (item.accessibility = keychainAccessibilityTarget)
    (.thrown (.unexpectedAccessibility item.account item.accessibility))

def requireMatchingData (lhs rhs : Item Account Attributes) : Eff Account Attributes Unit :=
  require (lhs.data = rhs.data) (.thrown (.conflictingCopies lhs.account))

def verify (expected : Item Account Attributes) (service : String) :
    Eff Account Attributes Unit := do
  let found := (← items service).filter (·.account = expected.account)
  match found with
  | [actual] => do
    requireTarget actual
    requireMatchingData expected actual
  | _ => throw (.thrown (.conflictingCopies expected.account))

variable (accessGroup : Attributes → String)

/-- A copy in the staging service, unless there is one. -/
def stage (canonical : Item Account Attributes) (staged : Option (Item Account Attributes))
    (service : String) : Eff Account Attributes Unit :=
  match staged with
  | some staged => requireMatchingData canonical staged
  | none => do
    add accessGroup canonical (stagingService service)
    verify canonical (stagingService service)

def migrate (account : Account) (canonical staged : Option (Item Account Attributes))
    (service : String) : Eff Account Attributes Bool := do
  staged.forM requireTarget
  match canonical, staged with
  | none, none => return false
  | none, some staged => do
    add accessGroup staged service
    verify staged service
    delete (stagingService service) account
    return true
  | some canonical, staged => do
    if canonical.accessibility = keychainAccessibilityTarget then
      staged.forM fun staged => do
        requireMatchingData canonical staged
        delete (stagingService service) account
      return false
    else
      require (canonical.accessibility = keychainAccessibilityLegacy)
        (.thrown (.unexpectedAccessibility account canonical.accessibility))
      stage accessGroup canonical staged service
      delete service account
      add accessGroup canonical service
      verify canonical service
      delete (stagingService service) account
      return true

/-- The items by their accounts. -/
def indexedItems : List (Item Account Attributes) → List (Account × Item Account Attributes) →
    Except (MigrationError Account) (List (Account × Item Account Attributes))
  | [], result => .ok result
  | item :: items, result =>
    if (result.lookup item.account).isSome then .error (.duplicateAccount item.account)
    else indexedItems items (insertKey item.account item result)

def migrateAccounts (canonical staged : List (Account × Item Account Attributes))
    (service : String) : List Account → ℕ → Eff Account Attributes ℕ
  | [], migratedCount => return migratedCount
  | account :: accounts, migratedCount => do
    let didMigrate ← migrate accessGroup account (canonical.lookup account)
      (staged.lookup account) service
    migrateAccounts canonical staged service accounts
      (if didMigrate then migratedCount + 1 else migratedCount)

def ensureFirstUnlockThisDeviceOnly (service : String) : Eff Account Attributes ℕ := do
  require (service ∈ keychainAccessibilityMigrationAllowedServices) (.thrown .invalidService)
  if (← device).isComplete service then
    return 0
  let canonical ← outcome ((indexedItems (← items service) []).mapError .thrown)
  let staged ← outcome ((indexedItems (← items (stagingService service)) []).mapError .thrown)
  let accounts := ((canonical ++ staged).map Prod.fst).dedup.insertionSort (· ≤ ·)
  let migratedCount ← migrateAccounts accessGroup canonical staged service accounts 0
  change (·.markComplete service)
  return migratedCount

end VizorWallet.Keychain
