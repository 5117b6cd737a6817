import Mathlib.Data.Bool.AllAny
import VizorWallet.PaymentLink.Canonical

/-!
# Round trips of gift links

A link that is shared or stored parses to a link that says the same. The compact form parses
only where the longer established form fits its limit too.

## Main results

* `parse_of_toRecoveryUri` — a stored link parses.
* `parse_of_toShareUri` — a shared link parses exactly where it can be stored.
* `parse_of_toLegacyWhitespaceShareUri` — a link that is shared in its established form parses.
* `toRecoveryUri_iff_of_parse` — an accepted link can be stored where its established form fits.
-/

namespace VizorWallet.PaymentLink

open CodeUnits CompactPaymentLinkCodec VizorPaymentLink

variable {Double Time : Type} {P : Packages Double Time} {link : VizorPaymentLink Double Time}

/-! ## Texts of links -/

theorem encodeBase64_eq (bytes : Bytes) : encodeBase64 bytes = ofBytes (Base64Url.encode bytes) :=
  filter_base64UrlEncode bytes

/-- A character of a fragment. -/
def IsFragmentUnit (u : UInt16) : Prop := isUrlSafe u ∨ u = 0x3d

instance : DecidablePred IsFragmentUnit := fun _ => inferInstanceAs (Decidable (_ ∨ _))

theorem isSpace_of_isFragmentUnit {u : UInt16} (h : IsFragmentUnit u) : isSpace u = false := by
  obtain h | rfl := h
  · exact isSpace_of_isUrlSafe h
  · rfl

theorem length_uriText (fragment : CodeUnits) :
    (uriText P fragment).length = P.host.length + 28 + fragment.length := by
  have hliterals : (literal "https://").length = 8 ∧
      (literal "/payment-links/open").length = 19 ∧ (literal "#").length = 1 := by decide
  simp only [uriText, List.length_append, hliterals.1, hliterals.2.1, hliterals.2.2]
  omega

theorem trim_uriText {fragment : CodeUnits} (hne : fragment ≠ [])
    (h : ∀ u ∈ fragment, IsFragmentUnit u) : trim (uriText P fragment) = uriText P fragment := by
  refine trim_of_ends ?_ ?_
  · intro u hu
    obtain rfl : 0x68 = u := Option.some.inj hu
    rfl
  · intro u hu
    rw [uriText, List.getLast?_append_of_ne_nil _ hne] at hu
    exact isSpace_of_isFragmentUnit (h u (List.mem_of_mem_getLast? hu))

/-- The parser reads the fragment of a link. -/
theorem parse_uriText (hP : P.Faithful) {fragment : CodeUnits} (hne : fragment ≠ [])
    (h : ∀ u ∈ fragment, IsFragmentUnit u)
    (hlength : (uriText P fragment).length ≤ maxEncodedLength) :
    parse P (uriText P fragment) =
      if (literal "v3=").isPrefixOf fragment then decode P (fragment.drop 3)
      else if (literal "v2=").isPrefixOf fragment then parsePayload P version (fragment.drop 3)
      else if (literal "v1=").isPrefixOf fragment then
        parsePayload P legacyVersion (fragment.drop 3)
      else .error "Payment link is missing its payload." := by
  have hendpoint : matchesEndpoint P {
      scheme := literal "https"
      userInfo := []
      host := P.host
      hasPort := false
      path := literal "/payment-links/open"
      hasQuery := false
      fragment } := ⟨hP.toLowerCase_scheme, hP.toLowerCase_host, rfl, Bool.false_ne_true, rfl⟩
  rw [parse]
  simp only [trim_uriText hne h, ensure_of _ hlength, ok_bind, hP.tryParseUri_uriText h,
    Option.filter_some, hendpoint, decide_true, if_true, orError_some]
  rw [ensure_of _ (by simp), ok_bind]

theorem uri_eq_ok {fragment text : CodeUnits} :
    uri P fragment = .ok text ↔
      (uriText P fragment).length ≤ maxEncodedLength ∧ uriText P fragment = text := by
  simp [uri]

/-! ## Stored links -/

section Fields

variable {payload : List (CodeUnits × Value Double)} {key : String}

theorem readString_of_lookup {text : CodeUnits} (h : lookup payload key = .string text) :
    readString payload key = .ok (trim text) := by
  rw [readString, h]
  rfl

theorem readInt_of_lookup {n : Int64} (h : lookup payload key = .int n) :
    readInt P payload key = .ok n := by
  rw [readInt, h]
  rfl

theorem readBigInt_of_lookup {n : ℤ} (h : lookup payload key = .string (ofInt n)) :
    readBigInt payload key = .ok n := by
  rw [readBigInt, h]
  exact orError_eq_ok.2 (by rw [trim_of_forall isSpace_ofInt, tryParseInteger_ofInt])

end Fields

/-- A text of the established JSON object parses to a link that says as much. -/
theorem parsePayload_of_read {payload : CodeUnits} (hne : payload ≠ []) (hamp : 0x26 ∉ payload)
    (hread : (P.base64Decode payload >>= P.utf8Decode) >>= P.jsonDecode =
      some link.canonicalPayload.value)
    (hnetwork : supportsNetwork P link.network) (hpresentable : link.Presentable P)
    (hamount : 0 < link.amountZatoshi) (hheight : 0 < link.birthdayHeight)
    (hwords : 12 ≤ wordCount (trim link.mnemonic)) :
    parsePayload P version payload = .ok (link.canonicalPayload.toLink Time) := by
  obtain ⟨hv, hnet, hamt, hmnemonic, hbirthday, hlabel⟩ :=
    link.canonicalPayload.lookup_members
  have hversion : isVersion P version (lookup link.canonicalPayload.members "v") := by
    rw [hv]
    exact beq_self_eq_true version
  have hlegacy : ∀ field : Except String CodeUnits, legacyOnly version field = .ok none :=
    fun _ => rfl
  have hsupported : supportsNetwork P link.canonicalPayload.network := by
    rwa [supportsNetwork, trim_network]
  have hcount : ¬ wordCount link.canonicalPayload.mnemonic < 12 := not_lt.2 hwords
  have hbirth : ¬ link.canonicalPayload.birthdayHeight ≤ 0 := Int64.not_le.2 hheight
  have hpos : ¬ link.canonicalPayload.amountZatoshi ≤ 0 := not_le.2 hamount
  rw [parsePayload, ensure_of _ ⟨hne, hamp⟩, ok_bind, hread, orError_some, ok_bind]
  simp only [CanonicalPayload.value, Value.map?, orError_some, ok_bind, ensure_of _ hversion,
    readString_of_lookup hnet, readBigInt_of_lookup hamt, readString_of_lookup hmnemonic,
    readInt_of_lookup hbirthday, readString_of_lookup hlabel, fromPayload_members hpresentable,
    hlegacy, trim_network, trim_mnemonic, trim_label, ensure_of _ hsupported, ensure_of _ hpos,
    ensure_of _ hcount, ensure_of _ hbirth]
  rfl

/-- The payload of a stored link parses to a link that says as much. -/
theorem parsePayload_of_encodedPayload (hP : P.Faithful) {payload : CodeUnits}
    (hamount : 0 < link.amountZatoshi) (hheight : 0 < link.birthdayHeight)
    (hwords : 12 ≤ wordCount (trim link.mnemonic)) (h : link.encodedPayload P = .ok payload) :
    parsePayload P version payload = .ok (link.canonicalPayload.toLink Time) := by
  obtain ⟨hnetwork, hpresentable, json, hjson, rfl⟩ := encodedPayload_eq_ok.1 h
  refine parsePayload_of_read (base64UrlEncode_ne_nil (hP.utf8Encode_ne_nil hjson))
    (fun hmem => absurd (isUrlSafe_or_eq_pad hmem) (by decide)) ?_ hnetwork hpresentable hamount
    hheight hwords
  rw [hP.base64Decode_base64UrlEncode]
  simp [hP.utf8Decode_utf8Encode hjson, hP.jsonDecode_jsonEncode hjson]

/-- The parser reads the payload of an established text. -/
theorem parse_established (hP : P.Faithful) {payload : CodeUnits}
    (h : ∀ u ∈ payload, IsFragmentUnit u)
    (hlength : (uriText P (literal "v2=" ++ payload)).length ≤ maxEncodedLength) :
    parse P (uriText P (literal "v2=" ++ payload)) = parsePayload P version payload := by
  have hunits : ∀ u ∈ literal "v2=" ++ payload, IsFragmentUnit u :=
    List.forall_mem_append.2 ⟨List.all_iff_forall_prop.1 (by decide), h⟩
  have hv3 : (literal "v3=").isPrefixOf (literal "v2=" ++ payload) = false := rfl
  have hv2 : (literal "v2=").isPrefixOf (literal "v2=" ++ payload) = true := rfl
  have hne : literal "v2=" ++ payload ≠ [] := List.cons_ne_nil _ _
  rw [parse_uriText hP hne hunits hlength, hv3, hv2]
  rfl

/-- A stored link parses to a link that says as much. -/
theorem parse_of_toRecoveryUri (hP : P.Faithful) {text : CodeUnits}
    (hamount : 0 < link.amountZatoshi) (hheight : 0 < link.birthdayHeight)
    (hwords : 12 ≤ wordCount (trim link.mnemonic)) (h : link.toRecoveryUri P = .ok text) :
    parse P text = .ok (link.canonicalPayload.toLink Time) := by
  obtain ⟨payload, hpayload, huri⟩ := toRecoveryUri_eq_ok.1 h
  obtain ⟨hlength, rfl⟩ := uri_eq_ok.1 huri
  have hunits : ∀ u ∈ payload, IsFragmentUnit u := by
    obtain ⟨-, -, json, -, rfl⟩ := encodedPayload_eq_ok.1 hpayload
    exact fun u hu => isUrlSafe_or_eq_pad hu
  rw [parse_established hP hunits hlength]
  exact parsePayload_of_encodedPayload hP hamount hheight hwords hpayload

/-! ## Shared links -/

/-- Bytes read back from their compact text. -/
theorem decodeBase64_encodeBase64 (hP : P.Faithful) {bytes : Bytes} (hne : bytes ≠ []) :
    decodeBase64 P (encodeBase64 bytes) = .ok bytes := by
  have hshape : encodeBase64 bytes ≠ [] ∧ (encodeBase64 bytes).all isUrlSafe := by
    rw [encodeBase64_eq, List.all_eq_true]
    refine ⟨?_, fun u hu => isUrlSafe_of_mem_encode hu⟩
    rw [← List.length_pos_iff] at hne ⊢
    rw [length_ofBytes, Base64Url.length_encode]
    omega
  have hdecode : P.base64Decode (encodeBase64 bytes) = some bytes := by
    rw [encodeBase64_eq]
    exact hP.base64Decode_unpadded bytes
  rw [decodeBase64, ensure_of _ hshape, ok_bind, hdecode, orError_some, ok_bind,
    ensure_of _ rfl, ok_bind]
  rfl

theorem length_encodeBase64 (bytes : Bytes) :
    (encodeBase64 bytes).length = (4 * bytes.length + 2) / 3 := by
  rw [encodeBase64_eq, length_ofBytes, Base64Url.length_encode]

/-- The phrase of an entropy is the phrase that the entropy was taken from. -/
theorem mnemonicFromEntropy_of_mnemonicToEntropy {phrase : CodeUnits} {entropy : Bytes}
    (h : mnemonicToEntropy P phrase = some entropy) (hlength : entropy.length ∈ entropyLengths) :
    mnemonicFromEntropy P entropy = some phrase := by
  simp only [mnemonicToEntropy, bind_eq_some, Option.guard_eq_some', Option.pure_def,
    Option.some.injEq] at h
  obtain ⟨-, -, entropy, -, canonical, hcanonical, -, rfl, rfl⟩ := h
  have hguard : guard (entropy.length ∈ [16, 20, 24, 28, 32]) = some () := if_pos hlength
  rw [mnemonicFromEntropy, hguard]
  exact hcanonical

theorem eq_null_of_isNull {value : Value Double} (h : value.isNull) : value = .null := by
  cases value with
  | null => rfl
  | _ => cases h

/-- The entries that are left read as before. -/
theorem getD_removeTrailingNulls (payload : List (Value Double)) (i : ℕ) :
    (removeTrailingNulls payload).getD i .null = payload.getD i .null := by
  induction payload using removeTrailingNulls.induct with
  | case1 payload h ih =>
    rw [removeTrailingNulls, if_pos h, ih]
    obtain rfl | ⟨front, last, rfl⟩ := List.eq_nil_or_concat payload
    · cases h.1
    obtain rfl : last = .null := eq_null_of_isNull (by simpa using h.2)
    rw [List.concat_eq_append, List.dropLast_concat, List.getD_eq_getElem?_getD,
      List.getD_eq_getElem?_getD, List.getElem?_append]
    split_ifs with hi
    · rfl
    · rw [List.getElem?_eq_none (not_lt.1 hi)]
      cases i - front.length <;> rfl
  | case2 payload h => rw [removeTrailingNulls, if_neg h]

theorem length_removeTrailingNulls {payload : List (Value Double)} (h : 4 ≤ payload.length) :
    4 ≤ (removeTrailingNulls payload).length ∧
      (removeTrailingNulls payload).length ≤ payload.length := by
  induction payload using removeTrailingNulls.induct with
  | case1 payload hlast ih =>
    rw [removeTrailingNulls, if_pos hlast]
    have hdrop := ih (by rw [List.length_dropLast]; omega)
    rw [List.length_dropLast] at hdrop
    omega
  | case2 payload hlast => rw [removeTrailingNulls, if_neg hlast]; exact ⟨h, le_rfl⟩

/-- What a compact payload says, at its positions. -/
def compactEntries (c : CanonicalPayload Double) (entropy : Bytes) : List (Value Double) :=
  [.string c.network, .string (encodeBase64 entropy), .int c.birthdayHeight,
    .string (ofInt c.amountZatoshi), optionalString c.artworkId, optionalDouble c.fiatAmount,
    optionalString c.message,
    optionalString (if c.label = defaultLabel then none else some c.label)]

variable (link) in
/-- The entries at their positions say what the link says. -/
theorem positions_presentationEntries (entropy : Bytes) :
    positions (trim link.network) entropy link link.canonicalPayload.presentationEntries =
      compactEntries link.canonicalPayload entropy := by
  have hartwork : lookup (link.canonicalPayload.presentationEntries.getD []) "artworkId" =
      optionalString link.canonicalPayload.artworkId := by
    rw [CanonicalPayload.presentationEntries]
    split_ifs with hplain
    · rw [hplain.1]
      rfl
    · exact lookup_entries_artworkId _ _ _
  have hmessage : lookup (link.canonicalPayload.presentationEntries.getD []) "message" =
      optionalString link.canonicalPayload.message := by
    rw [CanonicalPayload.presentationEntries]
    split_ifs with hplain
    · rw [hplain.2.1]
      rfl
    · exact lookup_entries_message _ _ _
  rw [positions, hartwork, hmessage]
  rfl

/-- A compact payload. -/
theorem encode_eq_ok {mnemonic : Option CodeUnits} {text : CodeUnits} :
    encode P link mnemonic = .ok text ↔
      validateRequired P link.canonicalPayload.network link.birthdayHeight link.amountZatoshi =
        .ok () ∧ link.Presentable P ∧
      ∃ entropy, mnemonicToEntropy P (mnemonic.getD link.canonicalPayload.mnemonic) =
          some entropy ∧ entropy.length ∈ entropyLengths ∧
        ∃ json, P.jsonEncode (.list (removeTrailingNulls
          (compactEntries link.canonicalPayload entropy))) = some json ∧
            encodeBase64 (P.utf8Encode json) = text := by
  rw [encode, mapError_eq_ok, encodeBody]
  simp only [bind_eq_ok, ensure_eq_ok, orError_eq_ok, pure_eq_ok, presentationPayload_eq_ok,
    exists_const]
  constructor
  · rintro ⟨⟨⟩, hrequired, -, ⟨hpresentable, rfl⟩, entropy, hentropy, hsize, json, hjson, htext⟩
    rw [positions_presentationEntries] at hjson
    exact ⟨hrequired, hpresentable, entropy, hentropy, hsize, json, hjson, htext⟩
  · rintro ⟨hrequired, hpresentable, entropy, hentropy, hsize, json, hjson, htext⟩
    rw [← positions_presentationEntries] at hjson
    exact ⟨(), hrequired, _, ⟨hpresentable, rfl⟩, entropy, hentropy, hsize, json, hjson, htext⟩

theorem stringOrNull?_optionalString (text : Option CodeUnits) :
    (optionalString text : Value Double).stringOrNull? = some text := by
  cases text <;> rfl

/-- The default label is left out. -/
theorem label_getD (link : VizorPaymentLink Double Time) :
    ((if link.canonicalPayload.label = defaultLabel then none
      else some link.canonicalPayload.label).map trim).getD defaultLabel =
        link.canonicalPayload.label := by
  split_ifs with hlabel
  · exact hlabel.symm
  · exact trim_label link

theorem fromPayload_compactEntries (hpresentable : link.Presentable P) :
    PaymentLinkPresentation.fromPayload P (.map
      [(literal "artworkId", optionalString link.canonicalPayload.artworkId),
        (literal "message", optionalString link.canonicalPayload.message),
        (literal "fiat", if (optionalDouble link.canonicalPayload.fiatAmount).isNull then .null
          else .map [(literal "amount", optionalDouble link.canonicalPayload.fiatAmount),
            (literal "currency", .string (literal "USD"))])]) =
      .ok link.canonicalPayload.presentation := by
  refine fromPayload_eq_ok hpresentable rfl rfl ?_
  cases link.canonicalPayload.fiatAmount <;> rfl

/-- A compact payload reads as a link that says as much. -/
theorem decodePayload_of_encode (hP : P.Faithful) {text : CodeUnits}
    (h : encode P link none = .ok text) (hlength : text.length ≤ maxEncodedLength) :
    decodePayload P text = .ok (link.canonicalPayload.toLink Time) := by
  obtain ⟨hrequired, hpresentable, entropy, hentropy, hsize, json, hjson, rfl⟩ := encode_eq_ok.1 h
  have hitems := getD_removeTrailingNulls (compactEntries link.canonicalPayload entropy)
  have hcount : (compactEntries link.canonicalPayload entropy).length = 8 := rfl
  have hlengths := length_removeTrailingNulls (hcount.symm.le.trans' (by decide))
  rw [hcount] at hlengths
  have hshort : (encodeBase64 entropy).length ≤ 43 := by
    simp only [entropyLengths, List.mem_cons, List.not_mem_nil, or_false] at hsize
    rw [length_encodeBase64]
    omega
  have hne : entropy ≠ [] := by
    rintro rfl
    exact absurd hsize (by decide)
  have hpositive : isPositiveDecimal (ofInt link.canonicalPayload.amountZatoshi) :=
    isPositiveDecimal_ofInt (not_le.1 (ensure_eq_ok.1 hrequired).2.2.2.1)
  have hrequired' : validateRequired P link.canonicalPayload.network
      link.canonicalPayload.birthdayHeight link.canonicalPayload.amountZatoshi = .ok () := hrequired
  rw [decodePayload, ensure_of _ hlength, ok_bind,
    decodeBase64_encodeBase64 hP (hP.utf8Encode_ne_nil hjson), ok_bind,
    hP.utf8Decode_utf8Encode hjson, orError_some, ok_bind, hP.jsonDecode_jsonEncode hjson,
    orError_some, ok_bind]
  simp only [Value.list?, orError_some, ok_bind, ensure_of _ hlengths, hitems]
  simp only [compactEntries, List.getD_cons_zero, List.getD_cons_succ, Value.string?, Value.int?,
    orError_some, ok_bind, ensure_of _ hshort, ensure_of _ hpositive, tryParseInteger_ofInt,
    trim_network, hrequired', decodeBase64_encodeBase64 hP hne, ensure_of _ hsize,
    stringOrNull?_optionalString, fromPayload_compactEntries hpresentable,
    mnemonicFromEntropy_of_mnemonicToEntropy hentropy hsize, label_getD]
  rfl

theorem toShareUri_eq_ok {text : CodeUnits} :
    link.toShareUri P = .ok text ↔ ∃ payload, encode P link none = .ok payload ∧
      uri P (literal "v3=" ++ payload) = .ok text := by
  rw [toShareUri, bind_eq_ok]

/-- A compact text fits the limit that its link fits. -/
theorem length_le_of_uri {payload text : CodeUnits}
    (h : uri P (literal "v3=" ++ payload) = .ok text) : payload.length ≤ maxEncodedLength := by
  have hlength := (uri_eq_ok.1 h).1
  rw [length_uriText, List.length_append] at hlength
  omega

theorem decode_eq_ok {encoded : CodeUnits} :
    decode P encoded = .ok link ↔
      decodePayload P encoded = .ok link ∧ ∃ text, link.toRecoveryUri P = .ok text := by
  rw [decode, mapError_eq_ok]
  simp only [bind_eq_ok, pure_eq_ok]
  constructor
  · rintro ⟨_, hpayload, text, htext, rfl⟩
    exact ⟨hpayload, text, htext⟩
  · rintro ⟨hpayload, text, htext⟩
    exact ⟨link, hpayload, text, htext, rfl⟩

/-- A shared link parses exactly where it can be stored, to a link that says as much. -/
theorem parse_of_toShareUri (hP : P.Faithful) {text : CodeUnits}
    (h : link.toShareUri P = .ok text) {parsed : VizorPaymentLink Double Time} :
    parse P text = .ok parsed ↔ parsed = link.canonicalPayload.toLink Time ∧
      ∃ recovery, link.toRecoveryUri P = .ok recovery := by
  obtain ⟨payload, hpayload, huri⟩ := toShareUri_eq_ok.1 h
  obtain ⟨hlength, rfl⟩ := uri_eq_ok.1 huri
  obtain ⟨-, hpresentable, -⟩ := encode_eq_ok.1 hpayload
  have hunits : ∀ u ∈ literal "v3=" ++ payload, IsFragmentUnit u := by
    obtain ⟨-, -, entropy, -, -, json, -, rfl⟩ := encode_eq_ok.1 hpayload
    rw [encodeBase64_eq]
    exact List.forall_mem_append.2
      ⟨List.all_iff_forall_prop.1 (by decide), fun u hu => .inl (isUrlSafe_of_mem_encode hu)⟩
  have hne : literal "v3=" ++ payload ≠ [] := List.cons_ne_nil _ _
  have hv3 : (literal "v3=").isPrefixOf (literal "v3=" ++ payload) = true := rfl
  have hdrop : (literal "v3=" ++ payload).drop 3 = payload := rfl
  rw [parse_uriText hP hne hunits hlength, hv3, if_pos rfl, hdrop, decode_eq_ok,
    decodePayload_of_encode hP hpayload (length_le_of_uri huri)]
  constructor
  · rintro ⟨hparsed, recovery, hrecovery⟩
    obtain rfl := Except.ok.inj hparsed
    exact ⟨rfl, recovery, hpresentable.toRecoveryUri_toLink.1 hrecovery⟩
  · rintro ⟨rfl, recovery, hrecovery⟩
    exact ⟨rfl, recovery, hpresentable.toRecoveryUri_toLink.2 hrecovery⟩

/-- A link that is shared in its established form parses to a link that says as much. -/
theorem parse_of_toLegacyWhitespaceShareUri (hP : P.Faithful) {text : CodeUnits}
    (hwords : 12 ≤ wordCount (trim link.mnemonic))
    (h : link.toLegacyWhitespaceShareUri P = .ok (some text)) :
    parse P text = .ok (link.canonicalPayload.toLink Time) := by
  rw [toLegacyWhitespaceShareUri] at h
  split_ifs at h with hcanonical
  · cases h
  · simp only [bind_eq_ok, ensure_eq_ok, exists_const, pure_eq_ok, Option.some.injEq] at h
    obtain ⟨-, payload, hpayload, -, -, recovery, hrecovery, rfl⟩ := h
    obtain ⟨-, hheight, -, hamount, -⟩ := ensure_eq_ok.1 (encode_eq_ok.1 hpayload).1
    exact parse_of_toRecoveryUri hP (not_le.1 hamount) (Int64.not_le.1 hheight) hwords hrecovery

/-- Links with one compact text say the same. -/
theorem canonicalPayload_eq_of_toShareUri (hP : P.Faithful) {text : CodeUnits}
    {other : VizorPaymentLink Double Time} (h : link.toShareUri P = .ok text)
    (hother : other.toShareUri P = .ok text) :
    other.canonicalPayload = link.canonicalPayload := by
  obtain ⟨payload, hpayload, huri⟩ := toShareUri_eq_ok.1 h
  obtain ⟨payload', hpayload', huri'⟩ := toShareUri_eq_ok.1 hother
  obtain rfl : payload' = payload := by
    have htexts := (uri_eq_ok.1 huri').2.trans (uri_eq_ok.1 huri).2.symm
    exact List.append_cancel_left (List.append_cancel_left htexts)
  have hlength := length_le_of_uri huri
  have hlinks := decodePayload_of_encode hP hpayload hlength
  rw [decodePayload_of_encode hP hpayload' hlength] at hlinks
  rw [← canonicalPayload_toLink other, ← canonicalPayload_toLink link, Except.ok.inj hlinks]

/-! ## Accepted links -/

/-- The text is a link with a compact payload. -/
def IsCompact (P : Packages Double Time) (raw : CodeUnits) : Prop :=
  ∃ uri, P.tryParseUri (trim raw) = some uri ∧ (literal "v3=").isPrefixOf uri.fragment

/-- A compact link that was parsed can be stored. -/
theorem toRecoveryUri_of_parse {raw : CodeUnits} (hcompact : IsCompact P raw)
    (h : parse P raw = .ok link) : ∃ text, link.toRecoveryUri P = .ok text := by
  obtain ⟨uri, huri, hv3⟩ := hcompact
  simp only [parse, bind_eq_ok, ensure_eq_ok, orError_eq_ok, exists_const] at h
  obtain ⟨-, parsed, hparsed, -, h⟩ := h
  obtain ⟨hsome, -⟩ := Option.filter_eq_some_iff.1 hparsed
  obtain rfl : uri = parsed := Option.some.inj (huri.symm.trans hsome)
  rw [if_pos hv3] at h
  exact (decode_eq_ok.1 h).2

theorem presentable_of_parsePayload {expected : Int64} {encoded : CodeUnits}
    (h : parsePayload P expected encoded = .ok link) :
    supportsNetwork P link.network ∧ link.Presentable P := by
  simp only [parsePayload, bind_eq_ok, ensure_eq_ok, pure_eq_ok, exists_const] at h
  obtain ⟨-, _, -, _, -, -, network, -, _, -, _, -, _, -, _, -, _, -, _, -, presentation,
    hpresentation, hnetwork, -, -, -, -, -, rfl⟩ := h
  exact ⟨hnetwork, presentable_of_fromPayload hpresentation⟩

/-- An accepted link is of a supported network, and its presentation passes its checks. -/
theorem presentable_of_parse {raw : CodeUnits} (h : parse P raw = .ok link) :
    supportsNetwork P link.network ∧ link.Presentable P := by
  simp only [parse, bind_eq_ok, ensure_eq_ok, orError_eq_ok, exists_const] at h
  obtain ⟨-, uri, -, -, h⟩ := h
  split_ifs at h
  · obtain ⟨-, text, htext⟩ := decode_eq_ok.1 h
    obtain ⟨payload, hpayload, -⟩ := toRecoveryUri_eq_ok.1 htext
    obtain ⟨hnetwork, hpresentable, -⟩ := encodedPayload_eq_ok.1 hpayload
    exact ⟨hnetwork, hpresentable⟩
  · exact presentable_of_parsePayload h
  · exact presentable_of_parsePayload h

/-- An accepted link can be stored exactly where its established form fits the limit. -/
theorem toRecoveryUri_iff_of_parse {raw json : CodeUnits} (h : parse P raw = .ok link)
    (hjson : P.jsonEncode link.canonicalPayload.value = some json) :
    (∃ text, link.toRecoveryUri P = .ok text) ↔
      (uriText P (literal "v2=" ++ base64UrlEncode (P.utf8Encode json))).length ≤
        maxEncodedLength := by
  obtain ⟨hnetwork, hpresentable⟩ := presentable_of_parse h
  have hpayload : link.encodedPayload P = .ok (base64UrlEncode (P.utf8Encode json)) :=
    encodedPayload_eq_ok.2 ⟨hnetwork, hpresentable, json, hjson, rfl⟩
  simp only [toRecoveryUri_eq_ok, hpayload, Except.ok.injEq, exists_eq_left', uri_eq_ok]
  simp

end VizorWallet.PaymentLink
