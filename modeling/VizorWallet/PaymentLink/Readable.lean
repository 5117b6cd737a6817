import VizorWallet.Library.Transition
import VizorWallet.PaymentLink.RoundTrip
import VizorWallet.PaymentLink.Store

/-!
# The store of gift cards stays readable

What an operation writes reads back as it was written. A record that is valid is written so that it
reads, and the operations write valid records as long as the reserves of drafts are not negative.

## Main definitions

* `PaymentLinkRecoveryRecord.Valid` — what the reader of an entry asks for.
* `PaymentLinkRecoveryRecord.stored` — the record that reads back.

## Main results

* `recordFromJson_recordToJson` — a valid record reads back.
* `decodeRecords_encodeRecords` — so does the text.
-/

namespace VizorWallet.PaymentLink

open CodeUnits VizorPaymentLink Effect

variable {Double Time : Type} {P : RecordPackages Double Time}
  {record : PaymentLinkRecoveryRecord Double Time}

/-! ## Entries -/

/-- What the reader of an entry asks for. -/
structure PaymentLinkRecoveryRecord.Valid (record : PaymentLinkRecoveryRecord Double Time) :
    Prop where
  amount : 0 < record.link.amountZatoshi
  birthday : 0 < record.link.birthdayHeight
  words : 12 ≤ wordCount (trim record.link.mnemonic)
  address : record.link.address ≠ some []
  reserve : 0 ≤ record.claimFeeReserveZatoshi
  source : record.sourceAccountUuid ≠ []
  expiry : ∀ height ∈ record.preparedExpiryHeight,
    0 < height ∧ record.state = .draft ∧ isNotBlank record.fundingTxids
  submitted : ∀ height ∈ record.submittedAtHeight, 0 ≤ height
  usage : ¬ record.usage.isInconsistent

/-- The record that reads back: the link that says as much, and times in UTC. -/
def PaymentLinkRecoveryRecord.stored (P : RecordPackages Double Time)
    (record : PaymentLinkRecoveryRecord Double Time) : PaymentLinkRecoveryRecord Double Time :=
  { record with
    link := (record.link.canonicalPayload.toLink Time).withResolvedMetadata record.link.address
      (record.link.createdAt.map P.toUtc) none
    updatedAt := P.toUtc record.updatedAt
    usage := record.usage.utc P }

/-- The members of an entry. -/
def PaymentLinkRecoveryRecord.members (P : RecordPackages Double Time)
    (record : PaymentLinkRecoveryRecord Double Time) (link address : CodeUnits)
    (createdAt : Time) : List (CodeUnits × Value Double) := [
  (literal "usage", record.usage.toJson P),
  (literal "link", .string link),
  (literal "address", .string address),
  (literal "createdAt", .string (P.toIso8601String (P.toUtc createdAt))),
  (literal "sourceAccountUuid", .string record.sourceAccountUuid),
  (literal "state", .string record.state.name),
  (literal "fundingTxids", .ofOption .string record.fundingTxids),
  (literal "preparedExpiryHeight", .ofOption .int record.preparedExpiryHeight),
  (literal "submittedAtHeight", .ofOption .int record.submittedAtHeight),
  (literal "claimFeeReserveZatoshi", .string (ofInt record.claimFeeReserveZatoshi)),
  (literal "updatedAt", .string (P.toIso8601String (P.toUtc record.updatedAt)))]

theorem recordToJson_eq_ok {value : Value Double} :
    recordToJson P record = .ok value ↔ ∃ link, record.link.toRecoveryUri P.toPackages = .ok link ∧
      ∃ address, record.link.address = some address ∧
        ∃ createdAt, record.link.createdAt = some createdAt ∧
          value = .map (record.members P link address createdAt) := by
  simp only [recordToJson, getAddress, getCreatedAt, bind_eq_ok, mapError_eq_ok, orError_eq_ok,
    pure_eq_ok, eq_comm (b := value)]
  rfl

section Lookup

variable (P record) (link address : CodeUnits) (createdAt : Time)

theorem PaymentLinkRecoveryRecord.lookup_members :
    lookup (record.members P link address createdAt) "usage" = record.usage.toJson P ∧
      lookup (record.members P link address createdAt) "link" = .string link ∧
      lookup (record.members P link address createdAt) "address" = .string address ∧
      lookup (record.members P link address createdAt) "createdAt" =
        .string (P.toIso8601String (P.toUtc createdAt)) ∧
      lookup (record.members P link address createdAt) "sourceAccountUuid" =
        .string record.sourceAccountUuid ∧
      lookup (record.members P link address createdAt) "state" = .string record.state.name ∧
      lookup (record.members P link address createdAt) "fundingTxids" =
        .ofOption .string record.fundingTxids ∧
      lookup (record.members P link address createdAt) "preparedExpiryHeight" =
        .ofOption .int record.preparedExpiryHeight ∧
      lookup (record.members P link address createdAt) "submittedAtHeight" =
        .ofOption .int record.submittedAtHeight ∧
      lookup (record.members P link address createdAt) "claimFeeReserveZatoshi" =
        .string (ofInt record.claimFeeReserveZatoshi) ∧
      lookup (record.members P link address createdAt) "updatedAt" =
        .string (P.toIso8601String (P.toUtc record.updatedAt)) :=
  ⟨rfl, rfl, rfl, rfl, rfl, rfl, rfl, rfl, rfl, rfl, rfl⟩

end Lookup

theorem stringOrNull?_ofOption (text : Option CodeUnits) :
    (Value.ofOption .string text : Value Double).stringOrNull? = some text := by
  cases text <;> rfl

theorem nullable_int?_ofOption (n : Option Int64) :
    (Value.ofOption .int n : Value Double).nullable (·.int?) = some n := by
  cases n <;> rfl

variable [DecidableEq Time]

/-- A valid record reads back. -/
theorem recordFromJson_recordToJson (hP : P.Faithful) (h : record.Valid) {value : Value Double}
    (hvalue : recordToJson P record = .ok value) :
    recordFromJson P value = .ok (record.stored P) := by
  obtain ⟨link, hlink, address, haddress, createdAt, hcreated, rfl⟩ := recordToJson_eq_ok.1 hvalue
  obtain ⟨husage, hlinkRaw, haddressRaw, hcreatedRaw, hsource, hstate, htxids, hexpiry, hsubmitted,
    hreserve, hupdated⟩ := record.lookup_members P link address createdAt
  have hparse := parse_of_toRecoveryUri hP.toFaithful h.amount h.birthday h.words hlink
  have hreserveRead : ((lookup (record.members P link address createdAt)
      "claimFeeReserveZatoshi").string? >>= tryParseInteger) =
        some record.claimFeeReserveZatoshi := by
    rw [hreserve]
    exact tryParseInteger_ofInt _
  have husageRead : GiftCardUsage.fromJson P (record.usage.toJson P) =
      .ok (record.usage.utc P) := (GiftCardUsage.fromJson_toJson hP.toFaithfulTime).2 ⟨h.usage, rfl⟩
  have hne : some address ≠ some [] := haddress ▸ h.address
  have hprepared : record.preparedExpiryHeight.isNone ∨
      record.state = .draft ∧ isNotBlank record.fundingTxids := by
    cases hheight : record.preparedExpiryHeight with
    | none => exact .inl rfl
    | some height => exact .inr (h.expiry height hheight).2
  have hexpiryPos : record.preparedExpiryHeight.all (0 < ·) := by
    rw [Option.all_eq_true]
    exact fun height hheight => decide_eq_true (h.expiry height hheight).1
  have hsubmittedPos : record.submittedAtHeight.all (0 ≤ ·) := by
    rw [Option.all_eq_true]
    exact fun height hheight => decide_eq_true (h.submitted height hheight)
  have hmatches : (∀ known ∈ (record.link.canonicalPayload.toLink Time).address,
      ∀ own ∈ some address, known = own) ∧
        ∀ known ∈ (record.link.canonicalPayload.toLink Time).createdAt,
          ∀ own ∈ some (P.toUtc createdAt), known = own := ⟨nofun, nofun⟩
  rw [recordFromJson]
  simp only [Value.map?, orError_some, ok_bind, hreserveRead, ensure_of _ h.reserve, hlinkRaw,
    Value.string?.eq_1, haddressRaw, Value.stringOrNull?.eq_2, ensure_of _ hne, hcreatedRaw,
    hsource, ensure_of _ h.source, hstate, htxids, stringOrNull?_ofOption, hexpiry,
    nullable_int?_ofOption, ensure_of _ hexpiryPos, hsubmitted, ensure_of _ hsubmittedPos, hupdated,
    hP.tryParseDateTime_toUtc, Option.elim_some, Option.map_some,
    PaymentLinkRecoveryState.byName_name, ensure_of _ hprepared, hparse, Except.mapError,
    ensure_of _ hmatches, husage, husageRead]
  simp only [PaymentLinkRecoveryRecord.stored, haddress, hcreated, hP.toUtc_toUtc]
  rfl

/-! ## The text -/

variable {records : List (PaymentLinkRecoveryRecord Double Time)}

theorem mapM_recordFromJson (hP : P.Faithful) {items : List (Value Double)}
    (hvalid : ∀ record ∈ records, record.Valid)
    (h : List.Forall₂ (fun record item => recordToJson P record = .ok item) records items) :
    items.mapM (recordFromJson P) = .ok (records.map (·.stored P)) := by
  refine mapM_eq_ok.2 ?_
  induction h with
  | nil => exact .nil
  | cons hitem _ ih =>
    obtain ⟨hrecord, hrest⟩ := List.forall_mem_cons.1 hvalid
    exact .cons (recordFromJson_recordToJson hP hrecord hitem) (ih hrest)

/-- Valid records read back from their text. -/
theorem decodeRecords_encodeRecords (hP : P.Faithful) (hvalid : ∀ record ∈ records, record.Valid)
    {text : CodeUnits} (h : encodeRecords P records = .ok text) :
    decodeRecords P (some text) = .ok (records.map (·.stored P)) := by
  rw [encodeRecords, bind_eq_ok] at h
  obtain ⟨items, hitems, hjson⟩ := h
  rw [orError_eq_ok] at hjson
  have hread := mapM_recordFromJson hP hvalid (mapM_eq_ok.1 hitems)
  have hversion : isVersion P.toPackages storageVersion (.int storageVersion) :=
    beq_self_eq_true storageVersion
  have hversionRaw : lookup [(literal "version", .int storageVersion),
      (literal submissionMarkersKey, .bool true), (literal "records", .list items)] "version" =
        (.int storageVersion : Value Double) := rfl
  have hmarker : lookup [(literal "version", .int storageVersion),
      (literal submissionMarkersKey, .bool true), (literal "records", .list items)]
        submissionMarkersKey = (.bool true : Value Double) := rfl
  have hrecords : lookup [(literal "version", .int storageVersion),
      (literal submissionMarkersKey, .bool true), (literal "records", .list items)] "records" =
        (.list items : Value Double) := rfl
  have hblank : (some text).filter (trim · ≠ []) = some text := by
    rw [Option.filter_some, if_pos (decide_eq_true (hP.trim_jsonEncode hjson))]
  rw [decodeRecords, hblank]
  simp only [decodeText, hP.jsonDecode_jsonEncode hjson, orError_some, ok_bind, Value.map?,
    hversionRaw, ensure_of _ hversion, hrecords, Value.list?, hread, hmarker]
  rfl

/-- The storage that writing records leaves. -/
def Writes (P : RecordPackages Double Time) (written : List (PaymentLinkRecoveryRecord Double Time))
    (after : Option CodeUnits) : Prop :=
  (written = [] ∧ after = none) ∨
    (written ≠ [] ∧ ∃ text, encodeRecords P written = .ok text ∧ after = some text)

/-- Valid records that were written are loaded. -/
theorem decodeRecords_of_writes (hP : P.Faithful) {after : Option CodeUnits}
    (hvalid : ∀ record ∈ records, record.Valid) (h : Writes P records after) :
    decodeRecords P after = .ok (records.map (·.stored P)) := by
  obtain ⟨rfl, rfl⟩ | ⟨-, text, htext, rfl⟩ := h
  · rfl
  · exact decodeRecords_encodeRecords hP hvalid htext

section Rules

variable {ok : List (PaymentLinkRecoveryRecord Double Time) → Option CodeUnits → Prop}
  {done : Unit → Option CodeUnits → Prop} {fail : StoreError → Option CodeUnits → Prop}
  {storage : Option CodeUnits}

@[simp] theorem wp_loadUnlocked :
    wp (loadUnlocked P) ok fail storage ↔
      (∀ records, decodeRecords P storage = .ok records → ok records storage) ∧
        ∀ e, decodeRecords P storage = .error e → fail e storage := by
  rw [loadUnlocked, wp_bind, wp_get, wp_outcome]

omit [DecidableEq Time] in
@[simp] theorem wp_writeRecords :
    wp (writeRecords P records) done fail storage ↔
      (∀ after, Writes P records after → done () after) ∧
        ∀ e, records ≠ [] → encodeRecords P records = .error e → fail e storage := by
  unfold writeRecords Writes
  split_ifs with hnil
  · simp [hnil]
  · rw [wp_bind, wp_outcome]
    simp only [wp_set, hnil, false_and, false_or, ne_eq, not_false_eq_true, true_and, forall_const]
    refine and_congr_left fun _ => ⟨?_, fun h text htext => h _ ⟨text, htext, rfl⟩⟩
    rintro h _ ⟨text, htext, rfl⟩
    exact h text htext

end Rules

/-! ## Records that are rewritten -/

/-- A state stays, or moves one step forward. -/
inductive PaymentLinkRecoveryState.Advances :
    PaymentLinkRecoveryState → PaymentLinkRecoveryState → Prop
  | refl (state : PaymentLinkRecoveryState) : Advances state state
  | funded : Advances draft funded
  | shared : Advances funded shared

/-- Valid records of different addresses. -/
structure Consistent (records : List (PaymentLinkRecoveryRecord Double Time)) : Prop where
  valid : ∀ record ∈ records, record.Valid
  nodup : (records.map (·.link.address)).Nodup

/-- The records that an operation writes: one of them is advanced, or some are removed. -/
inductive Rewrites (records : List (PaymentLinkRecoveryRecord Double Time)) :
    List (PaymentLinkRecoveryRecord Double Time) → Prop
  | replace (updated : PaymentLinkRecoveryRecord Double Time) (hvalid : updated.Valid)
      (hadvances : ∀ old ∈ records, old.link.address = updated.link.address →
        old.state.Advances updated.state) :
      Rewrites records (replaceByAddress records updated)
  | filter (keep : PaymentLinkRecoveryRecord Double Time → Bool) :
      Rewrites records (records.filter keep)

section Rewrites

omit [DecidableEq Time]

variable {updated other : PaymentLinkRecoveryRecord Double Time}
  {written : List (PaymentLinkRecoveryRecord Double Time)} {address : CodeUnits}

theorem mem_replaceByAddress (h : other ∈ replaceByAddress records updated) :
    other = updated ∨ other ∈ records ∧ other.link.address ≠ updated.link.address := by
  have hreplaced : other ∈ records.map (fun record =>
      if record.link.address = updated.link.address then updated else record) →
        other = updated ∨ other ∈ records ∧ other.link.address ≠ updated.link.address := by
    rintro hmem
    obtain ⟨old, hold, rfl⟩ := List.mem_map.1 hmem
    split_ifs with haddress
    · exact .inl rfl
    · exact .inr ⟨hold, haddress⟩
  unfold replaceByAddress at h
  split_ifs at h
  · exact hreplaced h
  · obtain hmem | hmem := List.mem_append.1 h
    · exact hreplaced hmem
    · exact .inl (List.mem_singleton.1 hmem)

theorem nodup_replaceByAddress (h : (records.map (·.link.address)).Nodup) :
    ((replaceByAddress records updated).map (·.link.address)).Nodup := by
  have hsame : (records.map fun record =>
      if record.link.address = updated.link.address then updated else record).map
        (·.link.address) = records.map (·.link.address) := by
    rw [List.map_map]
    refine List.map_congr_left fun record _ => ?_
    simp only [Function.comp_apply]
    split_ifs with haddress
    · exact haddress.symm
    · rfl
  unfold replaceByAddress
  split_ifs with hany
  · rwa [hsame]
  · rw [List.map_append, hsame]
    refine List.nodup_append.2 ⟨h, List.nodup_singleton _, ?_⟩
    intro a ha b hb
    obtain ⟨old, hold, rfl⟩ := List.mem_map.1 ha
    rw [List.map_singleton, List.mem_singleton] at hb
    rintro heq
    exact hany (List.any_eq_true.2 ⟨old, hold, decide_eq_true (heq.trans hb)⟩)

/-- Consistent records stay consistent. -/
theorem Consistent.rewrites (h : Consistent records) (hrewrites : Rewrites records written) :
    Consistent written := by
  cases hrewrites with
  | replace updated hvalid =>
    refine ⟨fun record hrecord => ?_, nodup_replaceByAddress h.nodup⟩
    obtain rfl | ⟨hold, -⟩ := mem_replaceByAddress hrecord
    · exact hvalid
    · exact h.valid record hold
  | filter keep =>
    refine ⟨fun record hrecord => h.valid record (List.mem_of_mem_filter hrecord), ?_⟩
    exact h.nodup.sublist (List.filter_sublist.map _)

theorem Consistent.eq_of_address (h : Consistent records)
    {old : PaymentLinkRecoveryRecord Double Time} (hold : old ∈ records) (hother : other ∈ records)
    (haddress : old.link.address = other.link.address) : old = other :=
  List.inj_on_of_nodup_map h.nodup hold hother haddress

/-- States only move forward. -/
theorem Consistent.advances (h : Consistent records) (hrewrites : Rewrites records written) :
    ∀ old ∈ records, ∀ new ∈ written, old.link.address = new.link.address →
      old.state.Advances new.state := by
  intro old hold new hnew haddress
  have hkept : new ∈ records → old.state.Advances new.state := by
    intro hmem
    rw [h.eq_of_address hold hmem haddress]
    exact .refl _
  cases hrewrites with
  | replace updated _ hadvances =>
    obtain rfl | ⟨hmem, -⟩ := mem_replaceByAddress hnew
    · exact hadvances old hold haddress
    · exact hkept hmem
  | filter keep => exact hkept (List.mem_of_mem_filter hnew)

theorem findByAddress_eq_some (h : findByAddress records address = some record) :
    record ∈ records ∧ record.link.address = some address :=
  ⟨List.mem_of_find?_eq_some h, by simpa using List.find?_some h⟩

/-- The record that was found advances. -/
theorem Consistent.replace (h : Consistent records)
    (hfound : findByAddress records address = some record) (hvalid : updated.Valid)
    (haddress : updated.link.address = record.link.address)
    (hadvances : record.state.Advances updated.state) :
    Rewrites records (replaceByAddress records updated) := by
  refine .replace updated hvalid fun old hold heq => ?_
  obtain rfl := h.eq_of_address hold (findByAddress_eq_some hfound).1 (heq.trans haddress)
  exact hadvances

end Rewrites

end VizorWallet.PaymentLink
