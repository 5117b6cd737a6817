import VizorWallet.PaymentLink.Canonical

/-!
# Recorded usage of gift cards

What the sender knows about the use of a card, as records keep it. A record that contradicts
itself is not read.

## Main definitions

* `GiftCardUsage.toJson`, `GiftCardUsage.fromJson` — the entry of a record.
* `GiftCardUsage.IsConsistent` — what is checked on reading.

## Main results

* `fromJson_toJson` — an entry reads back exactly when it is consistent.
-/

namespace VizorWallet.PaymentLink

open CodeUnits

/-- The packages of links, with points in time. -/
structure RecordPackages (Double Time : Type) extends Packages Double Time where
  toUtc : Time → Time
  toIso8601String : Time → CodeUnits

/-- Points in time read back in UTC. -/
structure RecordPackages.FaithfulTime {Double Time : Type} (P : RecordPackages Double Time) :
    Prop where
  tryParseDateTime_toUtc : ∀ t,
    P.tryParseDateTime (P.toIso8601String (P.toUtc t)) = some (P.toUtc t)
  toUtc_toUtc : ∀ t, P.toUtc (P.toUtc t) = P.toUtc t

/-- Points in time read back, as the texts do, which are not blank. A phrase has three words for
four bytes of entropy. -/
structure RecordPackages.Faithful {Double Time : Type} (P : RecordPackages Double Time) : Prop
    extends P.toPackages.Faithful, P.FaithfulTime where
  trim_jsonEncode : ∀ {value text}, P.jsonEncode value = some text → trim text ≠ []
  wordCount_fromEntropy : ∀ {entropy phrase}, P.fromEntropy entropy = some phrase →
    wordCount (trim phrase) = 3 * entropy.length / 4

inductive GiftCardUsageStatus
  | unknown
  | unused
  | spendDetected
  | used
  deriving DecidableEq

inductive GiftCardUsageReason
  | missingFundingInfo
  | fundingNotObserved
  | scanIncomplete
  | amountMismatch
  | awaitingConfirmation
  deriving DecidableEq

def GiftCardUsageStatus.name : GiftCardUsageStatus → CodeUnits
  | unknown => literal "unknown"
  | unused => literal "unused"
  | spendDetected => literal "spendDetected"
  | used => literal "used"

def GiftCardUsageReason.name : GiftCardUsageReason → CodeUnits
  | missingFundingInfo => literal "missingFundingInfo"
  | fundingNotObserved => literal "fundingNotObserved"
  | scanIncomplete => literal "scanIncomplete"
  | amountMismatch => literal "amountMismatch"
  | awaitingConfirmation => literal "awaitingConfirmation"

/-- `GiftCardUsageStatus.values.byName` -/
def GiftCardUsageStatus.byName (name : CodeUnits) : Option GiftCardUsageStatus :=
  [unknown, unused, spendDetected, used].find? (·.name = name)

/-- `GiftCardUsageReason.values.byName` -/
def GiftCardUsageReason.byName (name : CodeUnits) : Option GiftCardUsageReason :=
  [missingFundingInfo, fundingNotObserved, scanIncomplete, amountMismatch,
    awaitingConfirmation].find? (·.name = name)

@[simp] theorem GiftCardUsageStatus.byName_name (status : GiftCardUsageStatus) :
    byName status.name = some status := by
  cases status <;> rfl

@[simp] theorem GiftCardUsageReason.byName_name (reason : GiftCardUsageReason) :
    byName reason.name = some reason := by
  cases reason <;> rfl

structure GiftCardUsage (Time : Type) where
  status : GiftCardUsageStatus := .unknown
  reason : Option GiftCardUsageReason := none
  accountUuid : Option CodeUnits := none
  checkedAt : Option Time := none
  verifiedHeight : Int64 := 0
  spentHeight : Int64 := 0
  spendingTxids : List CodeUnits := []
  cleanupPending : Bool := false
  cleaned : Bool := false

def Value.bool? {Double : Type} : Value Double → Option Bool
  | .bool b => some b
  | _ => none

/-- `value as T?`, and a conversion of what is not null. -/
def Value.nullable {Double α : Type} (read : Value Double → Option α) :
    Value Double → Option (Option α)
  | .null => some none
  | value => (read value).map some

/-- A value for what is there, and null. -/
def Value.ofOption {Double α : Type} (write : α → Value Double) (value : Option α) :
    Value Double :=
  value.elim .null write

variable {Double Time : Type}

/-- `^[0-9a-f]{64}$` -/
def isTxid (id : CodeUnits) : Bool :=
  id.length = 64 && id.all fun u => (0x30 ≤ u && u ≤ 0x39) || (0x61 ≤ u && u ≤ 0x66)

namespace GiftCardUsage

variable (P : RecordPackages Double Time) (usage : GiftCardUsage Time)

/-- The members of the JSON object. -/
def members : List (CodeUnits × Value Double) := [
  (literal "status", .string usage.status.name),
  (literal "reason", .ofOption (fun reason => .string reason.name) usage.reason),
  (literal "accountUuid", .ofOption .string usage.accountUuid),
  (literal "checkedAt",
    .ofOption (fun time => .string (P.toIso8601String (P.toUtc time))) usage.checkedAt),
  (literal "verifiedHeight", .int usage.verifiedHeight),
  (literal "spentHeight", .int usage.spentHeight),
  (literal "spendingTxids", .list (usage.spendingTxids.map .string)),
  (literal "cleanupPending", .bool usage.cleanupPending),
  (literal "cleaned", .bool usage.cleaned)]

def toJson : Value Double := .map (usage.members P)

/-- The entry contradicts itself. -/
def isInconsistent : Bool :=
  (usage.reason.isSome && usage.status ≠ .unknown) ||
    usage.verifiedHeight < 0 ||
    usage.spentHeight < 0 ||
    usage.accountUuid = some [] ||
    usage.spendingTxids.any (!isTxid ·) ||
    ((usage.cleanupPending || usage.cleaned) && usage.status ≠ .used) ||
    (usage.cleanupPending && (usage.cleaned || usage.accountUuid.isNone)) ||
    (usage.cleaned && usage.accountUuid.isSome) ||
    (usage.status = .used && (usage.spentHeight = 0 ||
      usage.verifiedHeight < usage.spentHeight + 5 || usage.spendingTxids = [] ||
      usage.checkedAt.isNone))

def fromJson : Value Double → Except String (GiftCardUsage Time)
  | .null => return {}
  | .map value => do
    let status ← orError ((lookup value "status").string? >>= GiftCardUsageStatus.byName)
      "Invalid argument (name): No enum value with that name"
    let reason ← orError
      ((lookup value "reason").nullable (·.string? >>= GiftCardUsageReason.byName))
      "Invalid argument (name): No enum value with that name"
    let accountUuid ← orError (lookup value "accountUuid").stringOrNull?
      "type is not a subtype of type 'String?' in type cast"
    let checkedAt ← orError
      ((lookup value "checkedAt").nullable fun time =>
        (time.string? >>= P.tryParseDateTime).map P.toUtc)
      "Invalid date format"
    let verifiedHeight ← orError (lookup value "verifiedHeight").int?
      "type is not a subtype of type 'int' in type cast"
    let spentHeight ← orError (lookup value "spentHeight").int?
      "type is not a subtype of type 'int' in type cast"
    let spendingTxids ← orError ((lookup value "spendingTxids").list? >>= (·.mapM (·.string?)))
      "type is not a subtype of type 'String' in type cast"
    let cleanupPending ← orError (lookup value "cleanupPending").bool?
      "type is not a subtype of type 'bool' in type cast"
    let cleaned ← orError (lookup value "cleaned").bool?
      "type is not a subtype of type 'bool' in type cast"
    let usage : GiftCardUsage Time := {
      status, reason, accountUuid, checkedAt, verifiedHeight, spentHeight, spendingTxids,
      cleanupPending, cleaned }
    ensure (¬ usage.isInconsistent) "Inconsistent Gift Card usage record"
    return usage
  | _ => .error "Invalid Gift Card usage record"

/-- The entry with its time in UTC. -/
def utc : GiftCardUsage Time := { usage with checkedAt := usage.checkedAt.map P.toUtc }

variable {P usage}

@[simp] theorem isInconsistent_utc : (usage.utc P).isInconsistent = usage.isInconsistent := by
  obtain ⟨_, _, _, checkedAt, _, _, _, _, _⟩ := usage
  cases checkedAt <;> rfl

theorem mapM_string (texts : List CodeUnits) :
    (texts.map (@Value.string Double)).mapM (·.string?) = some texts := by
  induction texts with
  | nil => rfl
  | cons text rest ih => rw [List.map_cons, List.mapM_cons, ih]; rfl

section Lookup

variable (P usage)

theorem lookup_members :
    lookup (usage.members P) "status" = .string usage.status.name ∧
      lookup (usage.members P) "reason" =
        .ofOption (fun reason => .string reason.name) usage.reason ∧
      lookup (usage.members P) "accountUuid" = .ofOption .string usage.accountUuid ∧
      lookup (usage.members P) "checkedAt" =
        .ofOption (fun time => .string (P.toIso8601String (P.toUtc time))) usage.checkedAt ∧
      lookup (usage.members P) "verifiedHeight" = .int usage.verifiedHeight ∧
      lookup (usage.members P) "spentHeight" = .int usage.spentHeight ∧
      lookup (usage.members P) "spendingTxids" = .list (usage.spendingTxids.map .string) ∧
      lookup (usage.members P) "cleanupPending" = .bool usage.cleanupPending ∧
      lookup (usage.members P) "cleaned" = .bool usage.cleaned :=
  ⟨rfl, rfl, rfl, rfl, rfl, rfl, rfl, rfl, rfl⟩

end Lookup

/-- An entry reads back exactly when it is consistent. -/
theorem fromJson_toJson (hP : P.FaithfulTime) {read : GiftCardUsage Time} :
    fromJson P (usage.toJson P) = .ok read ↔ ¬ usage.isInconsistent ∧ read = usage.utc P := by
  obtain ⟨hstatus, hreason, haccount, hchecked, hverified, hspent, hids, hpending, hcleaned⟩ :=
    usage.lookup_members P
  have hstatus' : ((lookup (usage.members P) "status").string? >>= GiftCardUsageStatus.byName) =
      some usage.status := by
    rw [hstatus]
    exact GiftCardUsageStatus.byName_name usage.status
  have hreason' : (lookup (usage.members P) "reason").nullable
      (·.string? >>= GiftCardUsageReason.byName) = some usage.reason := by
    rw [hreason]
    rcases usage.reason with - | ⟨⟨⟩⟩ <;> rfl
  have haccount' : (lookup (usage.members P) "accountUuid").stringOrNull? =
      some usage.accountUuid := by
    rw [haccount]
    cases usage.accountUuid <;> rfl
  have hchecked' : ((lookup (usage.members P) "checkedAt").nullable fun time =>
      (time.string? >>= P.tryParseDateTime).map P.toUtc) =
        some (usage.checkedAt.map P.toUtc) := by
    rw [hchecked]
    cases usage.checkedAt with
    | none => rfl
    | some time =>
      change ((P.tryParseDateTime (P.toIso8601String (P.toUtc time))).map P.toUtc).map some = _
      rw [hP.tryParseDateTime_toUtc, Option.map_some, hP.toUtc_toUtc]
      rfl
  have hids' : ((lookup (usage.members P) "spendingTxids").list? >>= (·.mapM (·.string?))) =
      some usage.spendingTxids := by
    rw [hids]
    exact mapM_string usage.spendingTxids
  rw [toJson, fromJson]
  simp only [hstatus', hreason', haccount', hchecked', hverified, hspent, hids', hpending, hcleaned,
    Value.int?, Value.bool?, orError_some, ok_bind, bind_eq_ok, ensure_eq_ok, exists_const,
    pure_eq_ok]
  have hsame : (usage.utc P).isInconsistent = usage.isInconsistent := isInconsistent_utc
  exact and_congr (by rw [← hsame]; rfl) eq_comm

end GiftCardUsage

end VizorWallet.PaymentLink
