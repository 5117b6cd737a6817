import VizorWallet.PaymentLink.Compact

/-!
# What a link says

The fields that every form of a link carries, without blanks at the ends of their texts. The
established form of a link is a function of them.

## Main definitions

* `CanonicalPayload` — the fields.
* `Packages.Faithful` — what the packages are relied on for.

## Main results

* `presentationPayload_eq_ok`, `encodedPayload_eq_ok` — the established form of a link.
* `fromPayload_eq_ok` — reading a presentation.
-/

namespace VizorWallet.PaymentLink

open CodeUnits PaymentLinkPresentation CompactPaymentLinkCodec

variable {Double Time : Type}

/-- What the packages are relied on for: texts read back as what they were written from. -/
structure Packages.Faithful (P : Packages Double Time) : Prop where
  jsonDecode_jsonEncode : ∀ {value text},
    P.jsonEncode value = some text → P.jsonDecode text = some value
  utf8Decode_utf8Encode : ∀ {value text},
    P.jsonEncode value = some text → P.utf8Decode (P.utf8Encode text) = some text
  utf8Encode_ne_nil : ∀ {value text}, P.jsonEncode value = some text → P.utf8Encode text ≠ []
  base64Decode_base64UrlEncode : ∀ bytes, P.base64Decode (base64UrlEncode bytes) = some bytes
  base64Decode_unpadded : ∀ bytes,
    P.base64Decode (ofBytes (Base64Url.encode bytes)) = some bytes
  toLowerCase_scheme : P.toLowerCase (literal "https") = literal "https"
  toLowerCase_host : P.toLowerCase P.host = P.host
  tryParseUri_uriText : ∀ {fragment : CodeUnits}, (∀ u ∈ fragment, isUrlSafe u ∨ u = 0x3d) →
    P.tryParseUri (VizorPaymentLink.uriText P fragment) = some {
      scheme := literal "https"
      userInfo := []
      host := P.host
      hasPort := false
      path := literal "/payment-links/open"
      hasQuery := false
      fragment }

/-- What a link says: the fields that its forms carry. -/
@[ext] structure CanonicalPayload (Double : Type) where
  network : CodeUnits
  amountZatoshi : ℤ
  mnemonic : CodeUnits
  birthdayHeight : Int64
  label : CodeUnits
  artworkId : Option CodeUnits
  message : Option CodeUnits
  fiatAmount : Option Double

def VizorPaymentLink.canonicalPayload (link : VizorPaymentLink Double Time) :
    CanonicalPayload Double where
  network := trim link.network
  amountZatoshi := link.amountZatoshi
  mnemonic := trim link.mnemonic
  birthdayHeight := link.birthdayHeight
  label := trim link.label
  artworkId := normalizeOptionalString (link.presentation.bind (·.artworkId))
  message := normalizeOptionalString (link.presentation.bind (·.message))
  fiatAmount := (link.presentation.bind (·.fiatSnapshot)).map (·.amount)

variable {P : Packages Double Time}

@[simp] theorem normalizeOptionalString_none : normalizeOptionalString none = none := rfl

@[simp] theorem normalizeOptionalString_idem (value : Option CodeUnits) :
    normalizeOptionalString (normalizeOptionalString value) = normalizeOptionalString value := by
  cases value with
  | none => rfl
  | some text =>
    by_cases htext : trim text = []
    · simp [normalizeOptionalString, Option.filter, htext]
    · simp [normalizeOptionalString, Option.filter, htext]

section Trim

variable (link : VizorPaymentLink Double Time)

@[simp] theorem trim_network :
    trim link.canonicalPayload.network = link.canonicalPayload.network :=
  trim_trim _

@[simp] theorem trim_mnemonic :
    trim link.canonicalPayload.mnemonic = link.canonicalPayload.mnemonic :=
  trim_trim _

@[simp] theorem trim_label : trim link.canonicalPayload.label = link.canonicalPayload.label :=
  trim_trim _

end Trim

/-! ## Entries of a presentation -/

section Entries

variable (artworkId message : Option CodeUnits) (fiat : Option (Value Double))

@[simp] theorem lookup_entries_artworkId :
    lookup (entries artworkId message fiat) "artworkId" = optionalString artworkId := by
  cases artworkId <;> cases message <;> cases fiat <;> rfl

@[simp] theorem lookup_entries_message :
    lookup (entries artworkId message fiat) "message" = optionalString message := by
  cases artworkId <;> cases message <;> cases fiat <;> rfl

@[simp] theorem lookup_entries_fiat :
    lookup (entries artworkId message fiat) "fiat" = fiat.getD .null := by
  cases artworkId <;> cases message <;> cases fiat <;> rfl

end Entries

/-! ## The established form -/

/-- The fiat entry of a presentation. -/
def fiatValue (amount : Double) : Value Double :=
  .map [(literal "amount", .double amount), (literal "currency", .string (literal "USD"))]

theorem fiat_validate_eq_ok {snapshot : PaymentLinkFiatSnapshot Double} {u : Unit} :
    snapshot.validate P = .ok u ↔ P.isFinite snapshot.amount ∧ ¬ P.isNegative snapshot.amount ∧
      snapshot.currency = literal "USD" :=
  ensure_eq_ok

theorem fiat_toPayload_eq_ok {snapshot : PaymentLinkFiatSnapshot Double} {value : Value Double} :
    snapshot.toPayload P = .ok value ↔
      snapshot.validate P = .ok () ∧ value = fiatValue snapshot.amount := by
  simp only [PaymentLinkFiatSnapshot.toPayload, bind_eq_ok, pure_eq_ok]
  constructor
  · rintro ⟨⟨⟩, hvalid, rfl⟩
    refine ⟨hvalid, ?_⟩
    rw [(fiat_validate_eq_ok.1 hvalid).2.2, fiatValue]
  · rintro ⟨hvalid, rfl⟩
    refine ⟨(), hvalid, ?_⟩
    rw [(fiat_validate_eq_ok.1 hvalid).2.2, fiatValue]

theorem mapM_fiat_eq_ok {fiat : Option (PaymentLinkFiatSnapshot Double)}
    {value : Option (Value Double)} :
    fiat.mapM (PaymentLinkFiatSnapshot.toPayload P) = .ok value ↔
      (∀ snapshot ∈ fiat, snapshot.validate P = .ok ()) ∧
        value = (fiat.map (·.amount)).map fiatValue := by
  cases fiat with
  | none => simp [eq_comm (a := value)]
  | some snapshot =>
    rw [Option.mapM_some, map_eq_ok]
    simp [fiat_toPayload_eq_ok, eq_comm (a := value)]

namespace CanonicalPayload

/-- The presentation says nothing. -/
def IsPlain (c : CanonicalPayload Double) : Prop :=
  c.artworkId = none ∧ c.message = none ∧ c.fiatAmount = none

instance (c : CanonicalPayload Double) : Decidable c.IsPlain := by
  unfold IsPlain
  infer_instance

/-- The entries of the presentation, unless it says nothing. -/
def presentationEntries (c : CanonicalPayload Double) : Option (List (CodeUnits × Value Double)) :=
  if c.IsPlain then none else some (entries c.artworkId c.message (c.fiatAmount.map fiatValue))

/-- The members of the established JSON object. -/
def members (c : CanonicalPayload Double) : List (CodeUnits × Value Double) :=
  [(literal "v", .int VizorPaymentLink.version), (literal "network", .string c.network),
    (literal "amountZatoshi", .string (ofInt c.amountZatoshi)),
    (literal "mnemonic", .string c.mnemonic),
    (literal "birthdayHeight", .int c.birthdayHeight),
    (literal "label", .string c.label)] ++
    (c.presentationEntries.map fun entries => (literal "presentation", Value.map entries)).toList

/-- The established JSON object. -/
def value (c : CanonicalPayload Double) : Value Double := .map c.members

theorem lookup_members (c : CanonicalPayload Double) :
    lookup c.members "v" = .int VizorPaymentLink.version ∧
      lookup c.members "network" = .string c.network ∧
      lookup c.members "amountZatoshi" = .string (ofInt c.amountZatoshi) ∧
      lookup c.members "mnemonic" = .string c.mnemonic ∧
      lookup c.members "birthdayHeight" = .int c.birthdayHeight ∧
      lookup c.members "label" = .string c.label :=
  ⟨rfl, rfl, rfl, rfl, rfl, rfl⟩

theorem lookup_members_presentation (c : CanonicalPayload Double) :
    lookup c.members "presentation" = (c.presentationEntries.map .map).getD .null := by
  rw [members]
  cases c.presentationEntries <;> rfl

end CanonicalPayload

/-- The presentation passes its checks. -/
structure VizorPaymentLink.Presentable (P : Packages Double Time)
    (link : VizorPaymentLink Double Time) : Prop where
  texts : validate P link.canonicalPayload.artworkId link.canonicalPayload.message = .ok ()
  fiat : ∀ snapshot ∈ link.presentation.bind (·.fiatSnapshot), snapshot.validate P = .ok ()

variable {link : VizorPaymentLink Double Time}

section Presentation

variable {artworkId message : Option CodeUnits}
  {fiat : Option (PaymentLinkFiatSnapshot Double)}

theorem presentable_iff (h : link.presentation = some ⟨artworkId, message, fiat⟩) :
    link.Presentable P ↔ validate P (normalizeOptionalString artworkId)
      (normalizeOptionalString message) = .ok () ∧
        ∀ snapshot ∈ fiat, snapshot.validate P = .ok () := by
  constructor
  · rintro ⟨htexts, hfiat⟩
    simp only [VizorPaymentLink.canonicalPayload, h, Option.bind_some] at htexts hfiat
    exact ⟨htexts, hfiat⟩
  · rintro ⟨htexts, hfiat⟩
    refine ⟨?_, ?_⟩
    · simpa [VizorPaymentLink.canonicalPayload, h] using htexts
    · simpa [h] using hfiat

theorem presentationEntries_eq (h : link.presentation = some ⟨artworkId, message, fiat⟩) :
    link.canonicalPayload.presentationEntries =
      if normalizeOptionalString artworkId = none ∧ normalizeOptionalString message = none ∧
        fiat.isNone then none
      else some (entries (normalizeOptionalString artworkId) (normalizeOptionalString message)
        ((fiat.map (·.amount)).map fiatValue)) := by
  simp [CanonicalPayload.presentationEntries, CanonicalPayload.IsPlain,
    VizorPaymentLink.canonicalPayload, h]

end Presentation

theorem presentable_of_none (h : link.presentation = none) : link.Presentable P where
  texts := by
    simp only [VizorPaymentLink.canonicalPayload, h]
    rfl
  fiat := by simp [h]

/-- A presentation that passes its checks is written from what it says. -/
theorem presentationPayload_eq_ok {payload : Option (List (CodeUnits × Value Double))} :
    link.presentationPayload P = .ok payload ↔
      link.Presentable P ∧ payload = link.canonicalPayload.presentationEntries := by
  rw [VizorPaymentLink.presentationPayload]
  rcases h : link.presentation with - | ⟨artworkId, message, fiat⟩
  · have hentries : link.canonicalPayload.presentationEntries = none := by
      simp [CanonicalPayload.presentationEntries, CanonicalPayload.IsPlain,
        VizorPaymentLink.canonicalPayload, h]
    simp [hentries, presentable_of_none h, eq_comm (a := payload)]
  · rw [presentable_iff h, presentationEntries_eq h]
    simp only [Option.elim_some, toPayload, bind_eq_ok]
    split_ifs with hplain
    · obtain rfl := Option.isNone_iff_eq_none.1 hplain.2.2
      simp only [pure_eq_ok]
      constructor
      · rintro ⟨⟨⟩, htexts, rfl⟩
        exact ⟨⟨htexts, fun _ h => by cases h⟩, rfl⟩
      · rintro ⟨⟨htexts, -⟩, rfl⟩
        exact ⟨(), htexts, rfl⟩
    · simp only [bind_eq_ok, mapM_fiat_eq_ok, pure_eq_ok]
      constructor
      · rintro ⟨⟨⟩, htexts, -, ⟨hfiat, rfl⟩, rfl⟩
        exact ⟨⟨htexts, hfiat⟩, rfl⟩
      · rintro ⟨⟨htexts, hfiat⟩, rfl⟩
        exact ⟨(), htexts, _, ⟨hfiat, rfl⟩, rfl⟩

/-- A link is written from what it says. -/
theorem encodedPayload_eq_ok {text : CodeUnits} :
    link.encodedPayload P = .ok text ↔
      VizorPaymentLink.supportsNetwork P link.network ∧ link.Presentable P ∧
        ∃ json, P.jsonEncode link.canonicalPayload.value = some json ∧
          base64UrlEncode (P.utf8Encode json) = text := by
  simp only [VizorPaymentLink.encodedPayload, bind_eq_ok, ensure_eq_ok, orError_eq_ok, pure_eq_ok,
    presentationPayload_eq_ok, exists_const, VizorPaymentLink.supportsNetwork, trim_trim]
  constructor
  · rintro ⟨hnetwork, -, ⟨hpresentable, rfl⟩, json, hjson, htext⟩
    exact ⟨hnetwork, hpresentable, json, hjson, htext⟩
  · rintro ⟨hnetwork, hpresentable, json, hjson, htext⟩
    exact ⟨hnetwork, _, ⟨hpresentable, rfl⟩, json, hjson, htext⟩

/-- Links that say the same have the same established form. -/
theorem encodedPayload_congr {other : VizorPaymentLink Double Time} {text : CodeUnits}
    (hsame : other.canonicalPayload = link.canonicalPayload) (hpresentable : other.Presentable P)
    (h : link.encodedPayload P = .ok text) : other.encodedPayload P = .ok text := by
  obtain ⟨hnetwork, -, json, hjson, htext⟩ := encodedPayload_eq_ok.1 h
  refine encodedPayload_eq_ok.2 ⟨?_, hpresentable, json, by rwa [hsame], htext⟩
  have htrim : trim other.network = trim link.network := congrArg CanonicalPayload.network hsame
  rwa [VizorPaymentLink.supportsNetwork, htrim]

theorem hasSameCanonicalPayload_of_congr {other : VizorPaymentLink Double Time} {text : CodeUnits}
    (hsame : other.canonicalPayload = link.canonicalPayload) (hpresentable : other.Presentable P)
    (h : link.encodedPayload P = .ok text) : link.hasSameCanonicalPayload P other = .ok true := by
  rw [VizorPaymentLink.hasSameCanonicalPayload, h, encodedPayload_congr hsame hpresentable h]
  simp

/-! ## Reading a presentation -/

/-- The presentation that says as much. -/
def CanonicalPayload.presentation (c : CanonicalPayload Double) :
    Option (PaymentLinkPresentation Double) :=
  if c.IsPlain then none
  else some ⟨c.artworkId, c.message, c.fiatAmount.map fun amount => ⟨amount, literal "USD"⟩⟩

theorem readOptionalString_eq_ok {payload : List (CodeUnits × Value Double)} {key : String}
    {text : Option CodeUnits} (h : lookup payload key = optionalString text) :
    readOptionalString payload key = .ok (normalizeOptionalString text) := by
  rw [readOptionalString, h]
  cases text <;> rfl

theorem fiat_fromPayload_fiatValue {amount : Double}
    (h : (PaymentLinkFiatSnapshot.mk amount (literal "USD")).validate P = .ok ()) :
    PaymentLinkFiatSnapshot.fromPayload P (fiatValue amount) =
      .ok (some ⟨amount, literal "USD"⟩) := by
  have hamount : lookup [(literal "amount", Value.double amount),
      (literal "currency", .string (literal "USD"))] "amount" = .double amount := rfl
  have hcurrency : lookup [(literal "amount", Value.double amount),
      (literal "currency", .string (literal "USD"))] "currency" = .string (literal "USD") := rfl
  simp only [fiatValue, PaymentLinkFiatSnapshot.fromPayload, hamount, hcurrency,
    PaymentLinkFiatSnapshot.num?, Value.string?, orError_some, ok_bind, h]
  rfl

/-- The presentation of a link reads back from its entries. -/
theorem fromPayload_eq_ok (hpresentable : link.Presentable P)
    {payload : List (CodeUnits × Value Double)}
    (hartwork : lookup payload "artworkId" = optionalString link.canonicalPayload.artworkId)
    (hmessage : lookup payload "message" = optionalString link.canonicalPayload.message)
    (hfiat : lookup payload "fiat" = (link.canonicalPayload.fiatAmount.map fiatValue).getD .null) :
    fromPayload P (.map payload) = .ok link.canonicalPayload.presentation := by
  have hsnapshot : PaymentLinkFiatSnapshot.fromPayload P
      ((link.canonicalPayload.fiatAmount.map fiatValue).getD .null) =
        .ok (link.canonicalPayload.fiatAmount.map fun amount => ⟨amount, literal "USD"⟩) := by
    rcases hamount : link.presentation.bind (·.fiatSnapshot) with - | snapshot
    · simp [VizorPaymentLink.canonicalPayload, hamount]
      rfl
    · have hvalid := hpresentable.fiat snapshot hamount
      have hdollars := (fiat_validate_eq_ok.1 hvalid).2.2
      simp only [VizorPaymentLink.canonicalPayload, hamount, Option.map_some, Option.getD_some]
      refine fiat_fromPayload_fiatValue ?_
      rwa [← hdollars]
  have hidem : ∀ text ∈ [link.canonicalPayload.artworkId, link.canonicalPayload.message],
      normalizeOptionalString text = text := by
    simp [VizorPaymentLink.canonicalPayload]
  simp only [List.mem_cons, List.not_mem_nil, or_false, forall_eq_or_imp, forall_eq] at hidem
  simp only [fromPayload, readOptionalString_eq_ok hartwork, readOptionalString_eq_ok hmessage,
    hfiat, hsnapshot, ok_bind, hidem.1, hidem.2, hpresentable.texts]
  rw [CanonicalPayload.presentation]
  by_cases hplain : link.canonicalPayload.IsPlain
  · rw [if_pos hplain, if_pos ⟨hplain.1, hplain.2.1, by rw [hplain.2.2]; rfl⟩]
    rfl
  · rw [if_neg hplain, if_neg (by simpa [CanonicalPayload.IsPlain] using hplain)]
    rfl

/-- The presentation of a link reads back from its established form. -/
theorem fromPayload_members (hpresentable : link.Presentable P) :
    fromPayload P (lookup link.canonicalPayload.members "presentation") =
      .ok link.canonicalPayload.presentation := by
  rw [CanonicalPayload.lookup_members_presentation, CanonicalPayload.presentationEntries]
  split_ifs with hplain
  · rw [CanonicalPayload.presentation, if_pos hplain]
    rfl
  · exact fromPayload_eq_ok hpresentable (lookup_entries_artworkId _ _ _)
      (lookup_entries_message _ _ _) (lookup_entries_fiat _ _ _)

theorem fiat_validate_of_fromPayload {value : Value Double}
    {snapshot : Option (PaymentLinkFiatSnapshot Double)}
    (h : PaymentLinkFiatSnapshot.fromPayload P value = .ok snapshot) :
    ∀ s ∈ snapshot, s.validate P = .ok () := by
  intro s hs
  cases value with
  | null =>
    obtain rfl := Except.ok.inj h
    cases hs
  | map entries =>
    simp only [PaymentLinkFiatSnapshot.fromPayload, bind_eq_ok, pure_eq_ok] at h
    obtain ⟨amount, -, currency, -, ⟨⟩, hvalid, rfl⟩ := h
    obtain rfl := Option.mem_some_iff.1 hs
    exact hvalid
  | _ => cases h

theorem readOptionalString_idem {payload : List (CodeUnits × Value Double)} {key : String}
    {text : Option CodeUnits} (h : readOptionalString payload key = .ok text) :
    normalizeOptionalString text = text := by
  rw [readOptionalString] at h
  split at h
  · obtain rfl := Except.ok.inj h
    rfl
  · obtain rfl := Except.ok.inj h
    exact normalizeOptionalString_idem _
  · cases h

/-- A presentation that was read passes its checks. -/
theorem presentable_of_fromPayload {value : Value Double}
    (h : fromPayload P value = .ok link.presentation) : link.Presentable P := by
  cases value with
  | null => exact presentable_of_none (Except.ok.inj h).symm
  | map payload =>
    simp only [fromPayload, bind_eq_ok] at h
    obtain ⟨artworkId, hartwork, message, hmessage, fiat, hfiat, ⟨⟩, htexts, h⟩ := h
    split_ifs at h
    · exact presentable_of_none (Except.ok.inj h).symm
    · rw [presentable_iff (Except.ok.inj h).symm, readOptionalString_idem hartwork,
        readOptionalString_idem hmessage]
      exact ⟨htexts, fiat_validate_of_fromPayload hfiat⟩
  | _ => cases h

/-! ## The link that says as much -/

/-- A link without address and creation time that says as much. -/
def CanonicalPayload.toLink (Time : Type) (c : CanonicalPayload Double) :
    VizorPaymentLink Double Time where
  network := c.network
  address := none
  amountZatoshi := c.amountZatoshi
  mnemonic := c.mnemonic
  birthdayHeight := c.birthdayHeight
  label := c.label
  createdAt := none
  presentation := c.presentation

section ToLink

variable (c : CanonicalPayload Double)

theorem presentation_artworkId : c.presentation.bind (·.artworkId) = c.artworkId := by
  rw [CanonicalPayload.presentation]
  split_ifs with hplain
  · exact hplain.1.symm
  · rfl

theorem presentation_message : c.presentation.bind (·.message) = c.message := by
  rw [CanonicalPayload.presentation]
  split_ifs with hplain
  · exact hplain.2.1.symm
  · rfl

theorem presentation_fiatAmount :
    (c.presentation.bind (·.fiatSnapshot)).map (·.amount) = c.fiatAmount := by
  rw [CanonicalPayload.presentation]
  split_ifs with hplain
  · exact hplain.2.2.symm
  · simp [Function.comp_def]

end ToLink

variable (link) in
theorem canonicalPayload_toLink :
    (link.canonicalPayload.toLink Time).canonicalPayload = link.canonicalPayload := by
  ext1
  · exact trim_trim _
  · rfl
  · exact trim_trim _
  · rfl
  · exact trim_trim _
  · refine (congrArg normalizeOptionalString (presentation_artworkId _)).trans ?_
    exact normalizeOptionalString_idem _
  · refine (congrArg normalizeOptionalString (presentation_message _)).trans ?_
    exact normalizeOptionalString_idem _
  · exact presentation_fiatAmount _

theorem VizorPaymentLink.Presentable.toLink (h : link.Presentable P) :
    (link.canonicalPayload.toLink Time).Presentable P :=
  presentable_of_fromPayload (fromPayload_eq_ok h (lookup_entries_artworkId _ _ _)
    (lookup_entries_message _ _ _) (lookup_entries_fiat _ _ _))

/-- The link that says as much has the same established form. -/
theorem VizorPaymentLink.Presentable.encodedPayload_toLink (h : link.Presentable P)
    {text : CodeUnits} :
    (link.canonicalPayload.toLink Time).encodedPayload P = .ok text ↔
      link.encodedPayload P = .ok text :=
  ⟨encodedPayload_congr (canonicalPayload_toLink link).symm h,
    encodedPayload_congr (canonicalPayload_toLink link) h.toLink⟩

theorem toRecoveryUri_eq_ok {text : CodeUnits} :
    link.toRecoveryUri P = .ok text ↔ ∃ payload, link.encodedPayload P = .ok payload ∧
      VizorPaymentLink.uri P (literal "v2=" ++ payload) = .ok text := by
  rw [VizorPaymentLink.toRecoveryUri, bind_eq_ok]

theorem VizorPaymentLink.Presentable.toRecoveryUri_toLink (h : link.Presentable P)
    {text : CodeUnits} :
    (link.canonicalPayload.toLink Time).toRecoveryUri P = .ok text ↔
      link.toRecoveryUri P = .ok text := by
  simp only [toRecoveryUri_eq_ok, h.encodedPayload_toLink]

end VizorWallet.PaymentLink
