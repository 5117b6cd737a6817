import VizorWallet.PaymentLink.Readable
import VizorWallet.PaymentLink.Sharing

/-!
# Runs of the store of gift cards

Every operation leaves the text as it is or writes records that read back, and a card only moves
from draft to funded to shared. A draft with a negative reserve is written and does not read.

## Main definitions

* `Operation` — the operations with their arguments.
* `recoveryStore` — the store as a transition system.

## Main results

* `keeps_run` — what one operation does.
* `recoveryStore_readable` — what holds in every run whose drafts have reserves.
-/

namespace VizorWallet.PaymentLink

open CodeUnits VizorPaymentLink Effect PaymentLinkRecoveryState

variable {Double Time : Type} {P : RecordPackages Double Time} [DecidableEq Time]
  {records written : List (PaymentLinkRecoveryRecord Double Time)}
  {record existing : PaymentLinkRecoveryRecord Double Time} {storage after : Option CodeUnits}
  {α : Type}

/-! ## Links that were parsed -/

/-- What the parser asks of a link. -/
structure VizorPaymentLink.Accepted (link : VizorPaymentLink Double Time) : Prop where
  amount : 0 < link.amountZatoshi
  birthday : 0 < link.birthdayHeight
  words : 12 ≤ wordCount (trim link.mnemonic)
  address : link.address ≠ some []

section Accepted

omit [DecidableEq Time]

variable {link : VizorPaymentLink Double Time}

theorem accepted_of_parsePayload {version : Int64} {encoded : CodeUnits}
    (h : parsePayload P.toPackages version encoded = .ok link) : link.Accepted := by
  simp only [parsePayload, bind_eq_ok, ensure_eq_ok, exists_const, pure_eq_ok] at h
  obtain ⟨-, json, -, payload, -, -, network, -, amount, -, mnemonic, hmnemonic, height, -, label,
    -, address, -, createdAtRaw, -, presentation, -, -, haddress, hamount, hwords, hbirthday, -,
    rfl⟩ := h
  refine ⟨not_le.1 hamount, Int64.not_le.1 hbirthday, ?_, haddress⟩
  rw [readString] at hmnemonic
  split at hmnemonic
  · obtain rfl := Except.ok.inj hmnemonic
    rw [trim_trim]
    exact not_lt.1 hwords
  · cases hmnemonic

theorem accepted_of_decodePayload (hP : P.Faithful) {encoded : CodeUnits}
    (h : CompactPaymentLinkCodec.decodePayload P.toPackages encoded = .ok link) :
    link.Accepted := by
  simp only [CompactPaymentLinkCodec.decodePayload, bind_eq_ok, ensure_eq_ok, orError_eq_ok,
    exists_const, pure_eq_ok] at h
  obtain ⟨-, bytes, -, text, -, json, -, payload, -, -, network, -, encodedEntropy, -, -, height,
    -, amountText, -, -, amount, -, _, hrequired, entropy, -, hlength, label, -, presentation, -,
    mnemonic, hmnemonic, rfl⟩ := h
  obtain ⟨-, hheight, -, hamount, -⟩ := ensure_eq_ok.1 hrequired
  refine ⟨not_le.1 hamount, Int64.not_le.1 hheight, ?_, fun h => by cases h⟩
  rw [mnemonicFromEntropy, bind_eq_some] at hmnemonic
  obtain ⟨-, -, hphrase⟩ := hmnemonic
  rw [hP.wordCount_fromEntropy hphrase]
  simp only [CompactPaymentLinkCodec.entropyLengths, List.mem_cons, List.not_mem_nil,
    or_false] at hlength
  omega

/-- The parser accepts links as it asks for them. -/
theorem accepted_of_parse (hP : P.Faithful) {raw : CodeUnits}
    (h : parse P.toPackages raw = .ok link) : link.Accepted := by
  simp only [parse, bind_eq_ok, ensure_eq_ok, orError_eq_ok, exists_const] at h
  obtain ⟨-, uri, -, -, h⟩ := h
  split_ifs at h
  · exact accepted_of_decodePayload hP (decode_eq_ok.1 h).1
  · exact accepted_of_parsePayload h
  · exact accepted_of_parsePayload h

/-- A link stays accepted when its address and creation time are resolved. -/
theorem VizorPaymentLink.Accepted.withResolvedMetadata (h : link.Accepted)
    {address : Option CodeUnits} (haddress : address ≠ some []) (createdAt : Option Time)
    (provisional : Option Bool) :
    (link.withResolvedMetadata address createdAt provisional).Accepted where
  amount := h.amount
  birthday := h.birthday
  words := h.words
  address := by
    cases address with
    | none => exact h.address
    | some address => exact haddress

end Accepted

/-! ## One operation -/

/-- The text stays, or the loaded records are rewritten. -/
def Kept (P : RecordPackages Double Time) (storage after : Option CodeUnits) : Prop :=
  after = storage ∨ ∃ records written, decodeRecords P storage = .ok records ∧
    Writes P written after ∧ Rewrites records written

/-- On consistent records, an operation rewrites them or leaves the text. -/
def Keeps (P : RecordPackages Double Time) (x : StoreM α) : Prop :=
  ∀ storage, (∀ records, decodeRecords P storage = .ok records → Consistent records) →
    wp x (fun _ after => Kept P storage after) (fun _ after => after = storage) storage

theorem Kept.refl (P : RecordPackages Double Time) (storage : Option CodeUnits) :
    Kept P storage storage :=
  .inl rfl

/-- Writing the records with one of them advanced. -/
theorem kept_replace (hconsistent : Consistent records)
    (hload : decodeRecords P storage = .ok records) {address : CodeUnits}
    (hfound : findByAddress records address = some existing)
    {updated : PaymentLinkRecoveryRecord Double Time} (hvalid : updated.Valid)
    (haddress : updated.link.address = existing.link.address)
    (hadvances : existing.state.Advances updated.state) :
    ∀ after, Writes P (replaceByAddress records updated) after → Kept P storage after :=
  fun _ hwrites =>
    .inr ⟨_, _, hload, hwrites, hconsistent.replace hfound hvalid haddress hadvances⟩

theorem keeps_markShared (address : CodeUnits) (updatedAt : Time) :
    Keeps P (markShared P address updatedAt) := by
  intro storage hstorage
  simp only [markShared, findRequired, wp_bind, wp_loadUnlocked, wp_outcome, wp_require,
    wp_writeRecords, wp_pure, orError_eq_ok, implies_true, and_true]
  intro records hload existing hfound hstate
  have hconsistent := hstorage records hload
  have hvalid := hconsistent.valid existing (findByAddress_eq_some hfound).1
  refine kept_replace hconsistent hload hfound { hvalid with expiry := ?_ } rfl ?_
  · intro height hheight
    obtain ⟨-, hdraft, -⟩ := hvalid.expiry height hheight
    simp [hdraft] at hstate
  · rcases hstate with hstate | hstate
    · rw [hstate]
      exact .shared
    · rw [hstate]
      exact .refl _

theorem keeps_markFunded (address fundingTxids : CodeUnits) (updatedAt : Time) :
    Keeps P (markFunded P address fundingTxids updatedAt) := by
  intro storage hstorage
  simp only [markFunded, findRequired, wp_bind, wp_loadUnlocked, wp_outcome, wp_require,
    wp_writeRecords, wp_pure, orError_eq_ok, implies_true, and_true]
  intro _ records hload existing hfound hstate _
  have hconsistent := hstorage records hload
  have hvalid := hconsistent.valid existing (findByAddress_eq_some hfound).1
  refine kept_replace hconsistent hload hfound { hvalid with expiry := fun _ h => by cases h } rfl
    ?_
  rcases hstate with hstate | hstate
  · rw [hstate]
    exact .funded
  · rw [hstate]
    exact .refl _

theorem keeps_markSubmissionStartedOf (address : CodeUnits) (chainHeight : Int64)
    (updatedAt : Time) (requireRecord : Bool) :
    Keeps P (markSubmissionStartedOf P address chainHeight updatedAt requireRecord) := by
  intro storage hstorage
  have hstarted : ¬ chainHeight < 0 → ∀ records, decodeRecords P storage = .ok records →
      ∀ existing, findByAddress records address = some existing →
        existing.state = .draft → ∀ after, Writes P (replaceByAddress records { existing with
          state := .draft
          updatedAt := P.toUtc updatedAt
          submittedAtHeight := some chainHeight }) after → Kept P storage after := by
    intro hheight records hload existing hfound hdraft
    have hconsistent := hstorage records hload
    have hvalid := hconsistent.valid existing (findByAddress_eq_some hfound).1
    refine kept_replace hconsistent hload hfound { hvalid with
      expiry := ?_
      submitted := ?_ } rfl ?_
    · exact fun height hexpiry => ⟨(hvalid.expiry height hexpiry).1, rfl,
        (hvalid.expiry height hexpiry).2.2⟩
    · intro height hsubmitted
      obtain rfl := Option.some.inj hsubmitted
      exact Int64.not_lt.1 hheight
    · rw [hdraft]
      exact .refl _
  cases requireRecord with
  | true =>
    simp only [markSubmissionStartedOf, findRequired, wp_bind, wp_loadUnlocked, wp_outcome,
      wp_require, wp_writeRecords, wp_pure, wp_ite, wp_map, orError_eq_ok, implies_true, and_true,
      Kept.refl, true_and, if_true]
    intro hheight records hload existing hfound hdraft _
    exact hstarted hheight records hload existing hfound (not_not.1 hdraft)
  | false =>
    simp only [markSubmissionStartedOf, wp_bind, wp_loadUnlocked, wp_require, wp_pure,
      implies_true, and_true, Bool.false_eq_true, if_false]
    intro hheight records hload
    cases hfound : findByAddress records address with
    | none => exact Kept.refl P storage
    | some existing =>
      simp only [wp_bind, wp_writeRecords, wp_pure, wp_ite, implies_true, and_true, Kept.refl,
        true_and]
      exact fun hdraft _ => hstarted hheight records hload existing hfound (not_not.1 hdraft)

theorem keeps_markSubmitted (address fundingTxids : CodeUnits) (updatedAt : Time) :
    Keeps P (markSubmitted P address fundingTxids updatedAt) := by
  intro storage hstorage
  simp only [markSubmitted, findRequired, wp_bind, wp_loadUnlocked, wp_outcome, wp_require,
    wp_writeRecords, wp_pure, wp_ite, orError_eq_ok, implies_true, and_true, Kept.refl, true_and]
  intro hne records hload existing hfound hdraft hsame _
  have hconsistent := hstorage records hload
  have hvalid := hconsistent.valid existing (findByAddress_eq_some hfound).1
  have hnotBlank : isNotBlank (some (((existing.fundingTxids.map trim).filter (· ≠ [])).getD
      (trim fundingTxids))) := by
    rw [isNotBlank, Option.any_some, decide_eq_true_eq]
    cases htxids : (existing.fundingTxids.map trim).filter (· ≠ []) with
    | none => rwa [Option.getD_none, trim_trim]
    | some txids =>
      obtain ⟨htrim, htxids⟩ := Option.filter_eq_some_iff.1 htxids
      obtain ⟨raw, -, rfl⟩ := Option.map_eq_some_iff.1 htrim
      rw [Option.getD_some, trim_trim]
      exact of_decide_eq_true htxids
  refine kept_replace hconsistent hload hfound { hvalid with expiry := ?_, submitted := ?_ } rfl ?_
  · exact fun height hexpiry => ⟨(hvalid.expiry height hexpiry).1, rfl, hnotBlank⟩
  · intro height hsubmitted
    obtain rfl := Option.some.inj hsubmitted
    cases hheight : existing.submittedAtHeight with
    | none => exact Int64.le_refl 0
    | some height => exact hvalid.submitted height hheight
  · rw [not_not.1 hdraft]
    exact .refl _

theorem keeps_markPrepared (address fundingTxid : CodeUnits) (expiryHeight : Int64)
    (updatedAt : Time) : Keeps P (markPrepared P address fundingTxid expiryHeight updatedAt) := by
  intro storage hstorage
  simp only [markPrepared, findRequired, wp_bind, wp_loadUnlocked, wp_outcome, wp_require,
    wp_writeRecords, wp_pure, orError_eq_ok, implies_true, and_true]
  intro hne hpos records hload existing hfound hdraft _ _
  have hconsistent := hstorage records hload
  have hvalid := hconsistent.valid existing (findByAddress_eq_some hfound).1
  refine kept_replace hconsistent hload hfound { hvalid with expiry := ?_ } rfl ?_
  · intro height hheight
    obtain rfl := Option.some.inj hheight
    refine ⟨Int64.not_le.1 hpos, rfl, ?_⟩
    rw [isNotBlank, Option.any_some, trim_trim]
    exact decide_eq_true hne
  · rw [hdraft]
    exact .refl _

theorem keeps_removeIf (address : CodeUnits)
    (removable : PaymentLinkRecoveryRecord Double Time → Bool) (message : String) :
    Keeps P (removeIf P address removable message) := by
  intro storage _
  simp only [removeIf, wp_bind, wp_loadUnlocked, implies_true, and_true]
  intro records hload
  cases findByAddress records address with
  | none => exact Kept.refl P storage
  | some existing =>
    simp only [wp_bind, wp_require, wp_writeRecords, implies_true, and_true]
    exact fun _ after hwrites => .inr ⟨_, _, hload, hwrites, .filter _⟩

theorem keeps_removeUnsubmittedDraftsForAccount (sourceAccountUuid : CodeUnits) :
    Keeps P (removeUnsubmittedDraftsForAccount P sourceAccountUuid) := by
  intro storage _
  simp only [removeUnsubmittedDraftsForAccount, wp_bind, wp_loadUnlocked, wp_writeRecords, wp_pure,
    wp_ite, implies_true, and_true, Kept.refl]
  exact fun records hload _ after hwrites => .inr ⟨_, _, hload, hwrites, .filter _⟩

theorem keeps_updateUsage (hP : P.FaithfulTime) (expected : PaymentLinkRecoveryRecord Double Time)
    (usage : GiftCardUsage Time) : Keeps P (updateUsage P expected usage) := by
  intro storage hstorage
  simp only [updateUsage, wp_bind, wp_loadUnlocked, wp_outcome, implies_true, and_true]
  intro records hload address _
  cases hfound : findByAddress records address with
  | none => exact Kept.refl P storage
  | some current =>
    simp only [wp_bind, wp_outcome, wp_writeRecords, wp_pure, wp_ite, mapError_eq_ok, orError_eq_ok,
      implies_true, and_true, Kept.refl, true_and]
    intro same _ _ _ own _ other _ _ read hread
    have hconsistent := hstorage records hload
    have hvalid := hconsistent.valid current (findByAddress_eq_some hfound).1
    refine kept_replace hconsistent hload hfound { hvalid with usage := ?_ } rfl (.refl _)
    exact ((GiftCardUsage.fromJson_toJson hP).1 hread).1

theorem keeps_saveDraft {link : VizorPaymentLink Double Time} (hlink : link.Accepted)
    (sourceAccountUuid : CodeUnits) {claimFeeReserveZatoshi : ℤ}
    (hreserve : 0 ≤ claimFeeReserveZatoshi) (updatedAt : Time) :
    Keeps P (saveDraft P link sourceAccountUuid claimFeeReserveZatoshi updatedAt) := by
  intro storage hstorage
  simp only [saveDraft, getAddress, wp_bind, wp_loadUnlocked, wp_outcome, wp_require,
    wp_writeRecords, wp_pure, orError_eq_ok, implies_true, and_true]
  intro hsource records hload address haddress hdraft after hwrites
  refine .inr ⟨records, _, hload, hwrites, .replace _ ?_ fun old hold heq => ?_⟩
  · exact { hlink with
      reserve := hreserve
      source := hsource
      expiry := fun _ h => by cases h
      submitted := fun _ h => by cases h
      usage := Bool.false_ne_true }
  · have hsome : (findByAddress records address).isSome := by
      refine List.find?_isSome.2 ⟨old, hold, decide_eq_true ?_⟩
      exact heq.trans haddress
    obtain ⟨existing, hfound⟩ := Option.isSome_iff_exists.1 hsome
    obtain ⟨hmem, hexisting⟩ := findByAddress_eq_some hfound
    have hconsistent := hstorage records hload
    obtain rfl := hconsistent.eq_of_address hold hmem (heq.trans (haddress.trans hexisting.symm))
    rw [hdraft old hfound]
    exact .refl _

/-! ## Runs -/

inductive Operation (Double Time : Type)
  | saveDraft (link : VizorPaymentLink Double Time) (sourceAccountUuid : CodeUnits)
    (claimFeeReserveZatoshi : ℤ) (updatedAt : Time)
  | markFunded (address fundingTxids : CodeUnits) (updatedAt : Time)
  | markSubmissionStarted (address : CodeUnits) (chainHeight : Int64) (updatedAt : Time)
  | markSubmissionStartedIfPresent (address : CodeUnits) (chainHeight : Int64) (now : Time)
  | markSubmitted (address fundingTxids : CodeUnits) (updatedAt : Time)
  | markPrepared (address fundingTxid : CodeUnits) (expiryHeight : Int64) (updatedAt : Time)
  | markShared (address : CodeUnits) (updatedAt : Time)
  | removeUnsubmittedDraft (address : CodeUnits)
  | removeUnbroadcastDraft (address : CodeUnits)
  | removeUnsubmittedPreparedDraft (address : CodeUnits)
  | removeUnsubmittedDraftsForAccount (sourceAccountUuid : CodeUnits)
  | removeUnsharedExpiredFunding (address fundingTxids : CodeUnits)
  | updateUsage (expected : PaymentLinkRecoveryRecord Double Time) (usage : GiftCardUsage Time)

namespace Operation

variable (P)

/-- The operation without its result. -/
def run : Operation Double Time → StoreM Unit
  | saveDraft link source reserve updatedAt =>
    Functor.discard (PaymentLink.saveDraft P link source reserve updatedAt)
  | markFunded address fundingTxids updatedAt =>
    Functor.discard (PaymentLink.markFunded P address fundingTxids updatedAt)
  | markSubmissionStarted address chainHeight updatedAt =>
    Functor.discard (PaymentLink.markSubmissionStarted P address chainHeight updatedAt)
  | markSubmissionStartedIfPresent address chainHeight now =>
    Functor.discard (PaymentLink.markSubmissionStartedIfPresent P address chainHeight now)
  | markSubmitted address fundingTxids updatedAt =>
    Functor.discard (PaymentLink.markSubmitted P address fundingTxids updatedAt)
  | markPrepared address fundingTxid expiryHeight updatedAt =>
    Functor.discard (PaymentLink.markPrepared P address fundingTxid expiryHeight updatedAt)
  | markShared address updatedAt =>
    Functor.discard (PaymentLink.markShared P address updatedAt)
  | removeUnsubmittedDraft address => PaymentLink.removeUnsubmittedDraft P address
  | removeUnbroadcastDraft address => PaymentLink.removeUnbroadcastDraft P address
  | removeUnsubmittedPreparedDraft address => PaymentLink.removeUnsubmittedPreparedDraft P address
  | removeUnsubmittedDraftsForAccount source =>
    Functor.discard (PaymentLink.removeUnsubmittedDraftsForAccount P source)
  | removeUnsharedExpiredFunding address fundingTxids =>
    PaymentLink.removeUnsharedExpiredFunding P address fundingTxids
  | updateUsage expected usage => Functor.discard (PaymentLink.updateUsage P expected usage)

/-- What the operation returns or throws, and the text it leaves. -/
def perform (op : Operation Double Time) (storage : Option CodeUnits) :
    Except StoreError Unit × Option CodeUnits :=
  (op.run P).run.run storage

/-- The link of a draft was parsed. Its address and creation time may have been resolved. -/
def HasParsedLink : Operation Double Time → Prop
  | saveDraft link _ _ _ => ∃ raw parsed address createdAt provisional,
    parse P.toPackages raw = .ok parsed ∧ address ≠ some [] ∧
      link = parsed.withResolvedMetadata address createdAt provisional
  | _ => True

/-- The reserve of a draft is not negative. -/
def HasReserve : Operation Double Time → Prop
  | saveDraft _ _ claimFeeReserveZatoshi _ => 0 ≤ claimFeeReserveZatoshi
  | _ => True

variable {P}

theorem keeps_discard {x : StoreM α} (h : Keeps P x) : Keeps P (Functor.discard x) := by
  intro storage hstorage
  change wp ((fun _ => ()) <$> x) _ _ storage
  rw [wp_map]
  exact h storage hstorage

/-- An operation rewrites consistent records or leaves the text. -/
theorem keeps_run (hP : P.Faithful) (op : Operation Double Time) (hlink : op.HasParsedLink P)
    (hreserve : op.HasReserve) : Keeps P (op.run P) := by
  cases op with
  | saveDraft link source reserve updatedAt =>
    obtain ⟨raw, parsed, address, createdAt, provisional, hparse, haddress, rfl⟩ := hlink
    have haccepted := (accepted_of_parse hP hparse).withResolvedMetadata haddress createdAt
      provisional
    exact keeps_discard (keeps_saveDraft haccepted source hreserve updatedAt)
  | markFunded address fundingTxids updatedAt => exact keeps_discard (keeps_markFunded _ _ _)
  | markSubmissionStarted address chainHeight updatedAt =>
    exact keeps_discard (keeps_markSubmissionStartedOf _ _ _ _)
  | markSubmissionStartedIfPresent address chainHeight now =>
    exact keeps_discard (keeps_markSubmissionStartedOf _ _ _ _)
  | markSubmitted address fundingTxids updatedAt => exact keeps_discard (keeps_markSubmitted _ _ _)
  | markPrepared address fundingTxid expiryHeight updatedAt =>
    exact keeps_discard (keeps_markPrepared _ _ _ _)
  | markShared address updatedAt => exact keeps_discard (keeps_markShared _ _)
  | removeUnsubmittedDraft address => exact keeps_removeIf _ _ _
  | removeUnbroadcastDraft address => exact keeps_removeIf _ _ _
  | removeUnsubmittedPreparedDraft address => exact keeps_removeIf _ _ _
  | removeUnsubmittedDraftsForAccount source =>
    exact keeps_discard (keeps_removeUnsubmittedDraftsForAccount _)
  | removeUnsharedExpiredFunding address fundingTxids => exact keeps_removeIf _ _ _
  | updateUsage expected usage =>
    exact keeps_discard (keeps_updateUsage hP.toFaithfulTime expected usage)

end Operation

/-- The store, from an empty storage. A failing operation leaves the text that it has reached. -/
def recoveryStore (P : RecordPackages Double Time) :
    Transition (Option CodeUnits) (Operation Double Time) where
  init := none
  step storage op := some (op.perform P storage).2

/-- The storage reads as consistent records, whose texts read back as they are. -/
def Readable (P : RecordPackages Double Time) (storage : Option CodeUnits) : Prop :=
  ∃ records, decodeRecords P storage = .ok records ∧ Consistent records

/-- A record that was loaded is the record that was written. -/
structure SameRecord (P : RecordPackages Double Time)
    (written loaded : PaymentLinkRecoveryRecord Double Time) : Prop where
  payload : loaded.link.canonicalPayload = written.link.canonicalPayload
  address : loaded.link.address = written.link.address
  createdAt : loaded.link.createdAt = written.link.createdAt.map P.toUtc
  sourceAccountUuid : loaded.sourceAccountUuid = written.sourceAccountUuid
  state : loaded.state = written.state
  updatedAt : loaded.updatedAt = P.toUtc written.updatedAt
  fundingTxids : loaded.fundingTxids = written.fundingTxids
  preparedExpiryHeight : loaded.preparedExpiryHeight = written.preparedExpiryHeight
  submittedAtHeight : loaded.submittedAtHeight = written.submittedAtHeight
  usage : loaded.usage = written.usage.utc P
  claimFeeReserveZatoshi : loaded.claimFeeReserveZatoshi = written.claimFeeReserveZatoshi

section Stored

omit [DecidableEq Time]

theorem address_stored (record : PaymentLinkRecoveryRecord Double Time) :
    (record.stored P).link.address = record.link.address := by
  change (record.link.address <|> none) = record.link.address
  cases record.link.address <;> rfl

theorem sameRecord_stored (record : PaymentLinkRecoveryRecord Double Time) :
    SameRecord P record (record.stored P) where
  payload := canonicalPayload_toLink record.link
  address := address_stored record
  createdAt := by
    change (record.link.createdAt.map P.toUtc <|> none) = record.link.createdAt.map P.toUtc
    cases record.link.createdAt <;> rfl
  sourceAccountUuid := rfl
  state := rfl
  updatedAt := rfl
  fundingTxids := rfl
  preparedExpiryHeight := rfl
  submittedAtHeight := rfl
  usage := rfl
  claimFeeReserveZatoshi := rfl

theorem PaymentLinkRecoveryRecord.Valid.stored (h : record.Valid) : (record.stored P).Valid where
  amount := h.amount
  birthday := h.birthday
  words := by
    change 12 ≤ wordCount (trim record.link.canonicalPayload.mnemonic)
    rw [trim_mnemonic]
    exact h.words
  address := by
    rw [address_stored]
    exact h.address
  reserve := h.reserve
  source := h.source
  expiry := h.expiry
  submitted := h.submitted
  usage := by
    change ¬ (record.usage.utc P).isInconsistent
    rw [GiftCardUsage.isInconsistent_utc]
    exact h.usage

theorem map_address_stored (records : List (PaymentLinkRecoveryRecord Double Time)) :
    (records.map (·.stored P)).map (·.link.address) = records.map (·.link.address) := by
  rw [List.map_map]
  exact List.map_congr_left fun record _ => address_stored record

theorem Consistent.stored (h : Consistent records) : Consistent (records.map (·.stored P)) where
  valid := List.forall_mem_map.2 fun record hrecord => (h.valid record hrecord).stored
  nodup := by
    rw [map_address_stored]
    exact h.nodup

end Stored

/-- A readable storage stays readable. -/
theorem Kept.readable (hP : P.Faithful) (h : Readable P storage) (hkept : Kept P storage after) :
    Readable P after := by
  obtain rfl | ⟨records, written, hload, hwrites, hrewrites⟩ := hkept
  · exact h
  · obtain ⟨records', hload', hconsistent⟩ := h
    obtain rfl := Except.ok.inj (hload'.symm.trans hload)
    have hwritten := hconsistent.rewrites hrewrites
    exact ⟨_, decodeRecords_of_writes hP hwritten.valid hwrites, hwritten.stored⟩

/-- What an operation leaves of a readable storage. -/
theorem perform_spec (hP : P.Faithful) (op : Operation Double Time) (hlink : op.HasParsedLink P)
    (hreserve : op.HasReserve) (h : Readable P storage) :
    (∀ u after, op.perform P storage = (.ok u, after) → Kept P storage after) ∧
      ∀ e after, op.perform P storage = (.error e, after) → after = storage := by
  obtain ⟨records, hload, hconsistent⟩ := h
  refine wp_iff.1 (Operation.keeps_run hP op hlink hreserve storage fun records' hload' => ?_)
  obtain rfl := Except.ok.inj (hload.symm.trans hload')
  exact hconsistent

theorem readable_none (P : RecordPackages Double Time) : Readable P none :=
  ⟨[], rfl, List.forall_mem_nil _, List.nodup_nil⟩

theorem readable_of_reaches (hP : P.Faithful) (h : (recoveryStore P).Reaches
    (fun _ op => op.HasParsedLink P ∧ op.HasReserve) storage) : Readable P storage := by
  refine h.invariant (readable_none P) fun storage op after hstorage hok hstep => ?_
  obtain rfl := Option.some.inj hstep
  have hspec := perform_spec hP op hok.1 hok.2 hstorage
  rcases hperform : op.perform P storage with ⟨_ | u, after⟩
  · rw [hspec.2 _ _ hperform]
    exact hstorage
  · exact (hspec.1 _ _ hperform).readable hP hstorage

theorem run_loadUnlocked (storage : Option CodeUnits) :
    (loadUnlocked P).run.run storage = (decodeRecords P storage, storage) :=
  rfl

/-- In every run whose drafts have reserves, the cards load as they were written. -/
theorem recoveryStore_readable (hP : P.Faithful) (h : (recoveryStore P).Reaches
    (fun _ op => op.HasParsedLink P ∧ op.HasReserve) storage) :
    ∃ records, (loadUnlocked P).run.run storage = (.ok records, storage) ∧
      (records.map (·.link.address)).Nodup ∧
      (∀ record ∈ records, ∀ height ∈ record.preparedExpiryHeight,
        record.state = .draft ∧ isNotBlank record.fundingTxids) ∧
      ∀ op : Operation Double Time, op.HasParsedLink P → op.HasReserve →
        (∀ e after, op.perform P storage = (.error e, after) → after = storage) ∧
        ∀ after, op.perform P storage = (.ok (), after) →
          after = storage ∨ ∃ written loaded, Writes P written after ∧
            (loadUnlocked P).run.run after = (.ok loaded, after) ∧
            List.Forall₂ (SameRecord P) written loaded ∧
            ∀ old ∈ records, ∀ new ∈ loaded, old.link.address = new.link.address →
              old.state.Advances new.state := by
  have hrun : ∀ {storage records}, decodeRecords P storage = .ok records →
      (loadUnlocked P).run.run storage = (.ok records, storage) := by
    intro storage records hload
    rw [run_loadUnlocked, hload]
  obtain ⟨records, hload, hconsistent⟩ := readable_of_reaches hP h
  refine ⟨records, hrun hload, hconsistent.nodup, fun record hrecord height hheight =>
    ((hconsistent.valid record hrecord).expiry height hheight).2, fun op hlink hreserve => ?_⟩
  obtain ⟨hok, herror⟩ := perform_spec hP op hlink hreserve ⟨records, hload, hconsistent⟩
  refine ⟨herror, fun after hperform => ?_⟩
  obtain hsame | ⟨records', written, hload', hwrites, hrewrites⟩ := hok _ _ hperform
  · exact .inl hsame
  · obtain rfl := Except.ok.inj (hload.symm.trans hload')
    have hwritten := hconsistent.rewrites hrewrites
    refine .inr ⟨written, written.map (·.stored P), hwrites,
      hrun (decodeRecords_of_writes hP hwritten.valid hwrites), ?_, ?_⟩
    · rw [List.forall₂_map_right_iff, List.forall₂_same]
      exact fun record _ => sameRecord_stored record
    · intro old hold new hnew haddress
      obtain ⟨record, hrecord, rfl⟩ := List.mem_map.1 hnew
      exact hconsistent.advances hrewrites old hold record hrecord
        (haddress.trans (address_stored (P := P) record))

/-! ## A draft with a reserve of `n` -/

section Sample

def sampleEpoch : CodeUnits := literal "1970-01-01T00:00:00.000Z"

/-- The packages of the sample link with the start of time, and other times as numbers. -/
noncomputable def sampleTimes : RecordPackages ℤ ℕ := { samplePackages 5 with
  tryParseDateTime := fun text =>
    if text = sampleEpoch then some 0 else (tryParseInteger text).map Int.toNat
  toUtc := id
  toIso8601String := fun t => if t = 0 then sampleEpoch else ofInt t }

/-- The sample link, as it is parsed. -/
def sampleCard : VizorPaymentLink ℤ ℕ :=
  ((sampleLink 5).canonicalPayload.toLink ℕ).withResolvedMetadata (some (literal "u1gift"))
    (some 0) none

variable (n : ℤ)

/-- The transaction that funds the card. -/
def sampleTxid : CodeUnits := List.replicate 64 0x61

/-- The card in a state, funded unless it is a draft. -/
def sampleRecord (state : PaymentLinkRecoveryState) : PaymentLinkRecoveryRecord ℤ ℕ where
  link := sampleCard
  sourceAccountUuid := literal "account"
  state
  updatedAt := 0
  fundingTxids := if state = .draft then none else some sampleTxid
  claimFeeReserveZatoshi := n

/-- The JSON value of the card alone. -/
noncomputable def sampleStoreValue (state : PaymentLinkRecoveryState) : Value ℤ := .map [
  (literal "version", .int storageVersion),
  (literal submissionMarkersKey, .bool true),
  (literal "records", .list [.map ((sampleRecord n state).members sampleTimes
    (sampleRecoveryText 5) (literal "u1gift") 0)])]

/-- The JSON text of the transaction. -/
def sampleTxidText (state : PaymentLinkRecoveryState) : CodeUnits :=
  if state = .draft then literal "null" else literal "\"" ++ (sampleTxid ++ literal "\"")

/-- The JSON text of the card alone. -/
def sampleStoreText (state : PaymentLinkRecoveryState) : CodeUnits :=
  literal "\x7b\"version\":1,\"submissionMarkersRecorded\":true,\"records\":[\x7b\"usage\":\x7b" ++
    (literal "\"status\":\"unknown\",\"reason\":null,\"accountUuid\":null,\"checkedAt\":null," ++
    (literal "\"verifiedHeight\":0,\"spentHeight\":0,\"spendingTxids\":[]," ++
    (literal "\"cleanupPending\":false,\"cleaned\":false\x7d,\"link\":\"" ++
    (sampleRecoveryText 5 ++
    (literal "\",\"address\":\"u1gift\",\"createdAt\":\"1970-01-01T00:00:00.000Z\"," ++
    (literal "\"sourceAccountUuid\":\"account\",\"state\":\"" ++ (state.name ++
    (literal "\",\"fundingTxids\":" ++ (sampleTxidText state ++
    (literal ",\"preparedExpiryHeight\":null,\"submittedAtHeight\":null," ++
    (literal "\"claimFeeReserveZatoshi\":\"" ++ (ofInt n ++
    literal "\",\"updatedAt\":\"1970-01-01T00:00:00.000Z\"\x7d]\x7d"))))))))))))

/-- The texts of the states differ. -/
theorem sampleStoreText_inj {state state' : PaymentLinkRecoveryState} :
    sampleStoreText n state = sampleStoreText n state' ↔ state = state' := by
  refine ⟨fun h => ?_, congrArg (sampleStoreText n)⟩
  simp only [sampleStoreText, List.append_cancel_left_eq] at h
  cases state <;> cases state' <;> first
    | rfl
    | have hhead := congrArg List.head? h
      cases hhead

theorem sampleStoreValue_inj {state state' : PaymentLinkRecoveryState} :
    sampleStoreValue n state = sampleStoreValue n state' ↔ state = state' := by
  refine ⟨fun h => ?_, congrArg (sampleStoreValue n)⟩
  simp only [sampleStoreValue, PaymentLinkRecoveryRecord.members, sampleRecord, Value.map.injEq,
    List.cons.injEq, Prod.mk.injEq, Value.list.injEq, Value.string.injEq] at h
  rw [← Option.some_inj, ← PaymentLinkRecoveryState.byName_name state,
    ← PaymentLinkRecoveryState.byName_name state', h.2.2.1.2.1.2.2.2.2.2.1.2]

open Classical in
/-- The packages of the sample link, which know the texts of the card too. -/
noncomputable def sampleStorePackages : RecordPackages ℤ ℕ := { sampleTimes with
  jsonEncode := fun value =>
    if h : ∃ state, value = sampleStoreValue n state then some (sampleStoreText n h.choose)
    else (samplePackages 5).jsonEncode value
  jsonDecode := fun text =>
    if h : ∃ state, text = sampleStoreText n state then some (sampleStoreValue n h.choose)
    else (samplePackages 5).jsonDecode text }

/-- The texts are ASCII. -/
theorem ofBytes_toBytes_store (state : PaymentLinkRecoveryState) :
    ofBytes (toBytes (sampleStoreText n state)) = sampleStoreText n state := by
  have hlink : ∀ u ∈ sampleRecoveryText 5, u.toNat < 256 := by
    simp only [sampleRecoveryText, sampleOrigin, base64UrlEncode, List.forall_mem_append]
    refine ⟨lt_of_mem_literal, lt_of_mem_literal, lt_of_mem_ofBytes, fun u hu => ?_⟩
    rw [List.eq_of_mem_replicate hu]
    decide
  have hname : ∀ u ∈ state.name, u.toNat < 256 := by
    cases state <;> exact lt_of_mem_literal
  have htxid : ∀ u ∈ sampleTxidText state, u.toNat < 256 := by
    unfold sampleTxidText
    split_ifs
    · exact lt_of_mem_literal
    · simp only [sampleTxid, List.forall_mem_append]
      refine ⟨lt_of_mem_literal, fun u hu => ?_, lt_of_mem_literal⟩
      rw [List.eq_of_mem_replicate hu]
      decide
  refine ofBytes_toBytes ?_
  simp only [sampleStoreText, List.forall_mem_append]
  exact ⟨lt_of_mem_literal, lt_of_mem_literal, lt_of_mem_literal, lt_of_mem_literal, hlink,
    lt_of_mem_literal, lt_of_mem_literal, hname, lt_of_mem_literal, htxid, lt_of_mem_literal,
    lt_of_mem_literal, lt_of_mem_ofInt, lt_of_mem_literal⟩

/-- The text of the card is not one of the texts of the link. -/
theorem jsonEncode_sample_ne {value : Value ℤ} {text : CodeUnits}
    (h : (samplePackages 5).jsonEncode value = some text) (state : PaymentLinkRecoveryState) :
    text ≠ sampleStoreText n state := by
  simp only [samplePackages] at h
  rintro rfl
  split_ifs at h
  · have hhead := congrArg List.head? (Option.some.inj h)
    cases hhead
  · have hmember := congrArg (·[3]?) (Option.some.inj h)
    cases hmember

theorem jsonEncode_sampleStore (state : PaymentLinkRecoveryState) :
    (sampleStorePackages n).jsonEncode (sampleStoreValue n state) =
      some (sampleStoreText n state) := by
  have hknown : ∃ state', sampleStoreValue n state = sampleStoreValue n state' := ⟨state, rfl⟩
  simp only [sampleStorePackages, dif_pos hknown]
  rw [← (sampleStoreValue_inj n).1 hknown.choose_spec]

theorem sampleTimes_faithfulTime : sampleTimes.FaithfulTime where
  tryParseDateTime_toUtc t := by
    have hepoch : tryParseInteger sampleEpoch = none := by decide
    simp only [sampleTimes, id]
    by_cases ht : t = 0
    · rw [if_pos ht, if_pos rfl, ht]
    · have hne : ofInt (t : ℤ) ≠ sampleEpoch := by
        intro heq
        rw [← heq, tryParseInteger_ofInt] at hepoch
        cases hepoch
      rw [if_neg ht, if_neg hne, tryParseInteger_ofInt]
      rfl
  toUtc_toUtc _ := rfl

/-- A text that is written is a text of the card or of the link. -/
theorem jsonEncode_sample {value : Value ℤ} {text : CodeUnits}
    (h : (sampleStorePackages n).jsonEncode value = some text) :
    (∃ state, value = sampleStoreValue n state ∧ text = sampleStoreText n state) ∨
      (samplePackages 5).jsonEncode value = some text := by
  by_cases hknown : ∃ state, value = sampleStoreValue n state
  · obtain ⟨state, rfl⟩ := hknown
    rw [jsonEncode_sampleStore] at h
    exact .inl ⟨state, rfl, (Option.some.inj h).symm⟩
  · simp only [sampleStorePackages, dif_neg hknown] at h
    exact .inr h

theorem sampleJson {value : Value ℤ} {text : CodeUnits}
    (h : (samplePackages 5).jsonEncode value = some text) :
    text ∈ [sampleShareJson 5, sampleRecoveryJson 5] := by
  simp only [samplePackages] at h
  split_ifs at h <;> simp [Option.some.inj h]

/-- The packages are faithful. -/
theorem sampleStorePackages_faithful : (sampleStorePackages n).Faithful where
  jsonDecode_jsonEncode := by
    intro value text h
    obtain ⟨state, rfl, rfl⟩ | hlink := jsonEncode_sample n h
    · have hknown : ∃ state', sampleStoreText n state = sampleStoreText n state' := ⟨state, rfl⟩
      simp only [sampleStorePackages, dif_pos hknown]
      rw [← (sampleStoreText_inj n).1 hknown.choose_spec]
    · have hunknown : ¬ ∃ state, text = sampleStoreText n state :=
        fun ⟨state, hstate⟩ => jsonEncode_sample_ne n hlink state hstate
      simp only [sampleStorePackages, dif_neg hunknown]
      exact (samplePackages_faithful 5).jsonDecode_jsonEncode hlink
  utf8Decode_utf8Encode := by
    intro value text h
    obtain ⟨state, -, rfl⟩ | hlink := jsonEncode_sample n h
    · exact congrArg some (ofBytes_toBytes_store n state)
    · exact congrArg some (ofBytes_toBytes_json 5 (sampleJson hlink))
  utf8Encode_ne_nil := by
    intro value text h
    obtain ⟨state, -, rfl⟩ | hlink := jsonEncode_sample n h
    · exact List.cons_ne_nil _ _
    · exact (samplePackages_faithful 5).utf8Encode_ne_nil hlink
  base64Decode_base64UrlEncode := (samplePackages_faithful 5).base64Decode_base64UrlEncode
  base64Decode_unpadded := (samplePackages_faithful 5).base64Decode_unpadded
  toLowerCase_scheme := (samplePackages_faithful 5).toLowerCase_scheme
  toLowerCase_host := (samplePackages_faithful 5).toLowerCase_host
  tryParseUri_uriText := (samplePackages_faithful 5).tryParseUri_uriText
  tryParseDateTime_toUtc := sampleTimes_faithfulTime.tryParseDateTime_toUtc
  toUtc_toUtc := sampleTimes_faithfulTime.toUtc_toUtc
  trim_jsonEncode := by
    intro value text h
    obtain ⟨state, -, rfl⟩ | hlink := jsonEncode_sample n h
    · exact trim_ne_nil (u := 0x7b) List.mem_cons_self rfl
    · have hmem := sampleJson hlink
      simp only [List.mem_cons, List.not_mem_nil, or_false] at hmem
      rcases hmem with rfl | rfl
      · exact trim_ne_nil (u := 0x5b) List.mem_cons_self rfl
      · exact trim_ne_nil (u := 0x7b) List.mem_cons_self rfl
  wordCount_fromEntropy := by
    intro entropy phrase h
    simp only [sampleStorePackages, sampleTimes, samplePackages] at h
    split_ifs at h with hentropy
    rw [← Option.some.inj h, hentropy]
    decide

theorem canonicalPayload_sampleCard :
    sampleCard.canonicalPayload = (sampleLink 5).canonicalPayload :=
  @canonicalPayload_toLink ℤ ℕ (sampleLink 5)

theorem toRecoveryUri_sampleCard :
    sampleCard.toRecoveryUri (sampleStorePackages n).toPackages = .ok (sampleRecoveryText 5) := by
  have hnetwork : supportsNetwork (sampleStorePackages n).toPackages sampleCard.network := by
    have hmain : trim (trim (literal "main")) = literal "main" := by decide
    exact .inl hmain
  have hjson : (sampleStorePackages n).jsonEncode sampleCard.canonicalPayload.value =
      some (sampleRecoveryJson 5) := by
    rw [canonicalPayload_sampleCard]
    have hunknown : ¬ ∃ state, (sampleLink 5).canonicalPayload.value = sampleStoreValue n state :=
      fun ⟨_, heq⟩ => by cases heq
    simp only [sampleStorePackages, dif_neg hunknown]
    exact jsonEncode_sampleRecovery 5
  refine toRecoveryUri_eq_ok.2 ⟨_, encodedPayload_eq_ok.2 ⟨hnetwork, presentable_of_none rfl, _,
    hjson, rfl⟩, ?_⟩
  obtain ⟨payload, hpayload, huri⟩ := toRecoveryUri_eq_ok.1
    ((toRecoveryUri_sample 5).2 ⟨by decide, rfl⟩)
  rw [encodedPayload_sample] at hpayload
  obtain rfl := Except.ok.inj hpayload
  exact huri

theorem encodeRecords_sample (state : PaymentLinkRecoveryState) :
    encodeRecords (sampleStorePackages n) [sampleRecord n state] =
      .ok (sampleStoreText n state) := by
  have hrecord : recordToJson (sampleStorePackages n) (sampleRecord n state) =
      .ok (.map ((sampleRecord n state).members (sampleStorePackages n) (sampleRecoveryText 5)
        (literal "u1gift") 0)) :=
    recordToJson_eq_ok.2 ⟨_, toRecoveryUri_sampleCard n, _, rfl, _, rfl, rfl⟩
  rw [encodeRecords, List.mapM_cons, hrecord]
  exact orError_eq_ok.2 (jsonEncode_sampleStore n state)

/-- Writing the card leaves its text. -/
theorem wp_writeRecords_sample (state : PaymentLinkRecoveryState) (storage : Option CodeUnits) :
    wp (writeRecords (sampleStorePackages n) [sampleRecord n state])
      (fun _ after => after = some (sampleStoreText n state)) (fun _ _ => False) storage := by
  rw [wp_writeRecords, encodeRecords_sample]
  refine ⟨?_, fun _ _ herror => by cases herror⟩
  rintro after (⟨hnil, -⟩ | ⟨-, text, htext, rfl⟩)
  · cases hnil
  · rw [← Except.ok.inj ((encodeRecords_sample n state).symm.trans htext)]

/-- The card loads as it was written. -/
theorem decodeRecords_sample (hn : 0 ≤ n) (state : PaymentLinkRecoveryState) :
    decodeRecords (sampleStorePackages n) (some (sampleStoreText n state)) =
      .ok [sampleRecord n state] := by
  have hvalid : (sampleRecord n state).Valid := {
    amount := (by decide : 0 < sampleCard.amountZatoshi)
    birthday := (by decide : 0 < sampleCard.birthdayHeight)
    words := (by decide : 12 ≤ wordCount (trim (trim samplePhrase)))
    address := (by decide : sampleCard.address ≠ some [])
    reserve := hn
    source := (by decide : literal "account" ≠ [])
    expiry := nofun
    submitted := nofun
    usage := (by decide : ¬ ({} : GiftCardUsage ℕ).isInconsistent) }
  have hstored : (sampleRecord n state).stored (sampleStorePackages n) = sampleRecord n state := by
    have hcard : sampleCard.canonicalPayload.toLink ℕ =
        (sampleLink 5).canonicalPayload.toLink ℕ := congrArg _ canonicalPayload_sampleCard
    simp only [PaymentLinkRecoveryRecord.stored, sampleRecord, hcard]
    rfl
  rw [decodeRecords_encodeRecords (sampleStorePackages_faithful n)
    (List.forall_mem_singleton.2 hvalid) (encodeRecords_sample n state), List.map_singleton,
    hstored]

/-- An operation leaves the storage that its precondition gives. -/
theorem step_of_wp {op : Operation ℤ ℕ} {storage after : Option CodeUnits}
    (h : wp (op.run (sampleStorePackages n)) (fun _ s => s = after) (fun _ _ => False) storage) :
    (recoveryStore (sampleStorePackages n)).step storage op = some after := by
  change some (op.perform (sampleStorePackages n) storage).2 = some after
  rcases hrun : op.perform (sampleStorePackages n) storage with ⟨e | u, s⟩
  · exact ((wp_iff.1 h).2 e s hrun).elim
  · rw [(wp_iff.1 h).1 u s hrun]

/-- Saving the draft writes its text. -/
theorem step_saveDraft : (recoveryStore (sampleStorePackages n)).step none
    (.saveDraft sampleCard (literal "account") n 0) = some (some (sampleStoreText n .draft)) := by
  refine step_of_wp n ?_
  change wp ((fun _ => ()) <$> saveDraft _ _ _ _ _) _ _ none
  have hsource : literal "account" ≠ [] := by decide
  have hload : decodeRecords (sampleStorePackages n) none = .ok [] := rfl
  have haddress : getAddress sampleCard = .ok (literal "u1gift") := rfl
  have hfound : ∀ address, findByAddress ([] : List (PaymentLinkRecoveryRecord ℤ ℕ)) address =
      none := fun _ => rfl
  simp only [saveDraft, wp_map, wp_bind, wp_require, wp_loadUnlocked, wp_outcome, wp_pure,
    hload, haddress, hfound, hsource, Except.ok.injEq, forall_eq', reduceCtorEq, Option.mem_def,
    IsEmpty.forall_iff, implies_true, forall_const, ne_eq, not_false_eq_true, not_true_eq_false,
    and_true]
  exact wp_writeRecords_sample n .draft none

theorem reaches_saveDraft (ok : Option CodeUnits → Operation ℤ ℕ → Prop)
    (hok : ok none (.saveDraft sampleCard (literal "account") n 0)) :
    (recoveryStore (sampleStorePackages n)).Reaches ok (some (sampleStoreText n .draft)) :=
  .step .init hok (step_saveDraft n)

/-- Funding the draft writes the funded card. -/
theorem step_markFunded (hn : 0 ≤ n) : (recoveryStore (sampleStorePackages n)).step
    (some (sampleStoreText n .draft)) (.markFunded (literal "u1gift") sampleTxid 0) =
      some (some (sampleStoreText n .funded)) := by
  refine step_of_wp n ?_
  change wp ((fun _ => ()) <$> markFunded _ _ _ _) _ _ _
  have htrim : trim sampleTxid = sampleTxid := by decide
  have hne : sampleTxid ≠ [] := by decide
  have hfound : findByAddress [sampleRecord n .draft] (literal "u1gift") =
      some (sampleRecord n .draft) := rfl
  have hstate : (sampleRecord n .draft).state = .draft := rfl
  have htxids : (sampleRecord n .draft).fundingTxids = none := rfl
  simp only [markFunded, findRequired, wp_map, wp_bind, wp_require, wp_loadUnlocked, wp_outcome,
    wp_pure, decodeRecords_sample n hn .draft, hfound, hstate, htxids, htrim, hne, orError_some,
    Except.ok.injEq, forall_eq', reduceCtorEq, Option.mem_def, false_and, exists_false, and_false,
    IsEmpty.forall_iff, implies_true, forall_const, ne_eq, not_false_eq_true, not_true_eq_false,
    or_false, and_true]
  exact wp_writeRecords_sample n .funded _

/-- Sharing the funded card writes the shared card. -/
theorem step_markShared (hn : 0 ≤ n) : (recoveryStore (sampleStorePackages n)).step
    (some (sampleStoreText n .funded)) (.markShared (literal "u1gift") 0) =
      some (some (sampleStoreText n .shared)) := by
  refine step_of_wp n ?_
  change wp ((fun _ => ()) <$> markShared _ _ _) _ _ _
  have hfound : findByAddress [sampleRecord n .funded] (literal "u1gift") =
      some (sampleRecord n .funded) := rfl
  have hstate : (sampleRecord n .funded).state = .funded := rfl
  simp only [markShared, findRequired, wp_map, wp_bind, wp_require, wp_loadUnlocked, wp_outcome,
    wp_pure, decodeRecords_sample n hn .funded, hfound, hstate, orError_some, Except.ok.injEq,
    forall_eq', reduceCtorEq, IsEmpty.forall_iff, implies_true, forall_const, not_true_eq_false,
    or_false, and_true]
  exact wp_writeRecords_sample n .shared _

theorem hasParsedLink_sample :
    (Operation.saveDraft sampleCard (literal "account") n 0).HasParsedLink
      (sampleStorePackages n) := by
  refine ⟨sampleRecoveryText 5, sampleCard.canonicalPayload.toLink ℕ, some (literal "u1gift"),
    some 0, none, ?_, by decide, ?_⟩
  · refine parse_of_toRecoveryUri (sampleStorePackages_faithful n).toFaithful (by decide)
      (by decide) ?_ (toRecoveryUri_sampleCard n)
    change 12 ≤ wordCount (trim (trim samplePhrase))
    decide
  · rw [canonicalPayload_sampleCard]
    rfl

/-- The reader asks for a reserve. -/
theorem reserve_of_recordFromJson {value : Value ℤ} {record : PaymentLinkRecoveryRecord ℤ ℕ}
    {P : RecordPackages ℤ ℕ} (h : recordFromJson P value = .ok record) :
    ∃ members, value.map? = some members ∧ ∃ reserve : ℤ, 0 ≤ reserve ∧
      ((lookup members "claimFeeReserveZatoshi").string? >>= tryParseInteger) = some reserve := by
  rw [recordFromJson, bind_eq_ok] at h
  obtain ⟨members, hmembers, h⟩ := h
  rw [bind_eq_ok] at h
  obtain ⟨reserve, hreserve, h⟩ := h
  rw [bind_eq_ok] at h
  obtain ⟨_, hpos, _⟩ := h
  exact ⟨members, orError_eq_ok.1 hmembers, reserve, ensure_eq_ok.1 hpos, orError_eq_ok.1 hreserve⟩

/-- A text with a negative reserve is not read. -/
theorem not_decodeRecords_sample (hn : n < 0) {records : List (PaymentLinkRecoveryRecord ℤ ℕ)} :
    decodeRecords (sampleStorePackages n) (some (sampleStoreText n .draft)) ≠ .ok records := by
  intro h
  have hjson := jsonEncode_sampleStore n .draft
  have hP := sampleStorePackages_faithful n
  have hblank : (some (sampleStoreText n .draft)).filter (trim · ≠ []) =
      some (sampleStoreText n .draft) := by
    rw [Option.filter_some, if_pos (decide_eq_true (hP.trim_jsonEncode hjson))]
  rw [decodeRecords, hblank] at h
  simp only [mapError_eq_ok, decodeText, bind_eq_ok, orError_eq_ok, ensure_eq_ok, exists_const,
    hP.jsonDecode_jsonEncode hjson, Option.some.injEq, exists_eq_left'] at h
  obtain ⟨members, hmembers, -, items, hitems, read, hread, -⟩ := h
  obtain rfl := Option.some.inj hmembers
  obtain rfl := Option.some.inj hitems
  obtain ⟨record, rest, hrecord, -, -⟩ := List.forall₂_cons_left_iff.1 (mapM_eq_ok.1 hread)
  obtain ⟨members, hmembers, reserve, hpos, hreserve⟩ := reserve_of_recordFromJson hrecord
  obtain rfl := Option.some.inj hmembers
  obtain rfl : n = reserve := Option.some.inj ((tryParseInteger_ofInt n).symm.trans hreserve)
  omega

end Sample

/-- A card that was drafted, funded and shared loads as it was written. -/
theorem recoveryStore_readable_sample : ∃ records,
    (loadUnlocked (sampleStorePackages 10000)).run.run (some (sampleStoreText 10000 .shared)) =
        (.ok records, some (sampleStoreText 10000 .shared)) ∧
      records.map (·.state) = [.shared] ∧ (records.map (·.link.address)).Nodup := by
  let ok (_ : Option CodeUnits) (op : Operation ℤ ℕ) : Prop :=
    op.HasParsedLink (sampleStorePackages 10000) ∧ op.HasReserve
  have hdraft : (recoveryStore (sampleStorePackages 10000)).Reaches ok
      (some (sampleStoreText 10000 .draft)) :=
    reaches_saveDraft 10000 ok ⟨hasParsedLink_sample 10000, Int.natCast_nonneg 10000⟩
  have hfunded : (recoveryStore (sampleStorePackages 10000)).Reaches ok
      (some (sampleStoreText 10000 .funded)) :=
    hdraft.step (e := .markFunded _ _ _) ⟨trivial, trivial⟩ (step_markFunded 10000 (by decide))
  have hreaches : (recoveryStore (sampleStorePackages 10000)).Reaches ok
      (some (sampleStoreText 10000 .shared)) :=
    hfunded.step (e := .markShared _ _) ⟨trivial, trivial⟩ (step_markShared 10000 (by decide))
  obtain ⟨records, hload, hnodup, -⟩ :=
    recoveryStore_readable (sampleStorePackages_faithful 10000) hreaches
  refine ⟨records, hload, ?_, hnodup⟩
  rw [run_loadUnlocked, decodeRecords_sample 10000 (by decide), Prod.mk.injEq] at hload
  rw [← Except.ok.inj hload.1]
  rfl

/-- A draft with a negative reserve is saved, and then no card loads. -/
theorem recoveryStore_unreadable : ¬ ∀ (P : RecordPackages ℤ ℕ), P.Faithful →
    ∀ storage, (recoveryStore P).Reaches (fun _ op => op.HasParsedLink P) storage →
      ∃ records, (loadUnlocked P).run.run storage = (.ok records, storage) := by
  intro h
  obtain ⟨records, hload⟩ := h (sampleStorePackages (-1)) (sampleStorePackages_faithful (-1)) _
    (reaches_saveDraft (-1) (fun _ op => op.HasParsedLink _) (hasParsedLink_sample (-1)))
  rw [run_loadUnlocked, Prod.mk.injEq] at hload
  exact not_decodeRecords_sample (-1) (by decide) hload.1

end VizorWallet.PaymentLink
