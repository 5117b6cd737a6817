import VizorWallet.PaymentLink.RoundTrip

/-!
# Shared, stored and accepted gift links

What every faithful build promises of gift links, and links with labels so long that the form
which is shared or accepted fits the limit of a text while the form which is stored does not.

## Main results

* `gift_link_round_trip` — links that are shared, stored or accepted.
* `gift_link_limits` — a shared link that does not parse, and an accepted one that is not stored.
-/

namespace VizorWallet.PaymentLink

open CodeUnits CompactPaymentLinkCodec VizorPaymentLink

section RoundTrip

variable {Double Time : Type} {P : Packages Double Time}

/-- A shared link that can also be stored parses to one that says the same, without address and
creation time; a stored link parses to one that says the same; an accepted link can be stored when
it is compact, and otherwise where its established form fits the limit; and a compact text says one
thing. -/
theorem gift_link_round_trip (hP : P.Faithful) :
    (∀ (link : VizorPaymentLink Double Time) (text recovery : CodeUnits),
      link.toShareUri P = .ok text → link.toRecoveryUri P = .ok recovery →
        ∃ parsed, parse P text = .ok parsed ∧
          parsed.canonicalPayload = link.canonicalPayload ∧
          link.hasSameCanonicalPayload P parsed = .ok true ∧
          parsed.address = none ∧ parsed.createdAt = none) ∧
    (∀ (link : VizorPaymentLink Double Time) (text : CodeUnits),
      0 < link.amountZatoshi → 0 < link.birthdayHeight → 12 ≤ wordCount (trim link.mnemonic) →
        link.toRecoveryUri P = .ok text →
          ∃ parsed, parse P text = .ok parsed ∧
            link.hasSameCanonicalPayload P parsed = .ok true) ∧
    (∀ (raw : CodeUnits) (parsed : VizorPaymentLink Double Time), IsCompact P raw →
      parse P raw = .ok parsed → ∃ recovery, parsed.toRecoveryUri P = .ok recovery) ∧
    (∀ (raw json : CodeUnits) (parsed : VizorPaymentLink Double Time),
      parse P raw = .ok parsed → P.jsonEncode parsed.canonicalPayload.value = some json →
        ((∃ recovery, parsed.toRecoveryUri P = .ok recovery) ↔
          (uriText P (literal "v2=" ++ base64UrlEncode (P.utf8Encode json))).length ≤
            maxEncodedLength)) ∧
    ∀ (link other : VizorPaymentLink Double Time) (text : CodeUnits),
      link.toShareUri P = .ok text → other.toShareUri P = .ok text →
        other.canonicalPayload = link.canonicalPayload := by
  have hsame : ∀ (link : VizorPaymentLink Double Time) (recovery : CodeUnits),
      link.toRecoveryUri P = .ok recovery →
        link.hasSameCanonicalPayload P (link.canonicalPayload.toLink Time) = .ok true := by
    intro link recovery hrecovery
    obtain ⟨payload, hpayload, -⟩ := toRecoveryUri_eq_ok.1 hrecovery
    obtain ⟨-, hpresentable, -⟩ := encodedPayload_eq_ok.1 hpayload
    exact hasSameCanonicalPayload_of_congr (canonicalPayload_toLink link) hpresentable.toLink
      hpayload
  refine ⟨?_, ?_, ?_, ?_, ?_⟩
  · intro link text recovery hshare hrecovery
    exact ⟨link.canonicalPayload.toLink Time,
      (parse_of_toShareUri hP hshare).2 ⟨rfl, recovery, hrecovery⟩, canonicalPayload_toLink link,
      hsame link recovery hrecovery, rfl, rfl⟩
  · intro link text hamount hheight hwords hrecovery
    exact ⟨link.canonicalPayload.toLink Time,
      parse_of_toRecoveryUri hP hamount hheight hwords hrecovery, hsame link text hrecovery⟩
  · intro raw parsed hcompact hparse
    exact toRecoveryUri_of_parse hcompact hparse
  · intro raw json parsed hparse hjson
    exact toRecoveryUri_iff_of_parse hparse hjson
  · intro link other text hlink hother
    exact canonicalPayload_eq_of_toShareUri hP hlink hother

end RoundTrip

/-! ## A label of `n` letters -/

section Sample

/-- The phrase of sixteen zero bytes. -/
def samplePhrase : CodeUnits :=
  literal "abandon abandon abandon abandon abandon abandon abandon abandon abandon abandon " ++
    literal "abandon about"

def sampleEntropy : Bytes := List.replicate 16 0

variable (n : ℕ)

/-- A label of the letter `a`. -/
def sampleLabel : CodeUnits := List.replicate n 0x61

def sampleLink : VizorPaymentLink ℤ ℕ where
  network := literal "main"
  address := some (literal "u1gift")
  amountZatoshi := 1
  mnemonic := samplePhrase
  birthdayHeight := 1
  label := sampleLabel n
  createdAt := some 0
  presentation := none

/-- The JSON text of the compact payload. -/
def sampleShareJson : CodeUnits :=
  literal "[\"main\",\"AAAAAAAAAAAAAAAAAAAAAA\",1,\"1\",null,null,null,\"" ++ sampleLabel n ++
    literal "\"]"

/-- The JSON text of the established payload. -/
def sampleRecoveryJson : CodeUnits :=
  literal "\x7b\"v\":2,\"network\":\"main\",\"amountZatoshi\":\"1\",\"mnemonic\":\"" ++
    samplePhrase ++ literal "\",\"birthdayHeight\":1,\"label\":\"" ++ sampleLabel n ++
    literal "\"\x7d"

def sampleOrigin : CodeUnits := literal "https://sybil.cash/payment-links/open#"

open Classical in
/-- Packages that know the texts of the link, with whole doubles. -/
noncomputable def samplePackages : Packages ℤ ℕ where
  regtestEnabled := false
  host := literal "sybil.cash"
  isFinite _ := true
  isNegative x := x < 0
  toDouble n := n.toInt
  equalsInt x n := x = n.toInt
  jsonEncode value :=
    if value = .list (compactEntries (sampleLink n).canonicalPayload sampleEntropy) then
      some (sampleShareJson n)
    else if value = (sampleLink n).canonicalPayload.value then some (sampleRecoveryJson n)
    else none
  jsonDecode text :=
    if text = sampleShareJson n then
      some (.list (compactEntries (sampleLink n).canonicalPayload sampleEntropy))
    else if text = sampleRecoveryJson n then some (sampleLink n).canonicalPayload.value
    else none
  utf8Encode := toBytes
  utf8Decode bytes := some (ofBytes bytes)
  base64Decode text := Base64Url.decode (toBytes (text.filter (· ≠ 0x3d)))
  tryParseUri text :=
    if sampleOrigin.isPrefixOf text then
      some {
        scheme := literal "https"
        userInfo := []
        host := literal "sybil.cash"
        hasPort := false
        path := literal "/payment-links/open"
        hasQuery := false
        fragment := text.drop sampleOrigin.length }
    else none
  tryParseInt _ := none
  tryParseDateTime _ := none
  characters := List.length
  toLowerCase text := text.map fun u => if 0x41 ≤ u ∧ u ≤ 0x5a then u + 0x20 else u
  fromPhrase phrase := if phrase = samplePhrase then some sampleEntropy else none
  fromEntropy entropy := if entropy = sampleEntropy then some samplePhrase else none

/-- The texts are ASCII. -/
theorem ofBytes_toBytes_json {text : CodeUnits}
    (h : text ∈ [sampleShareJson n, sampleRecoveryJson n]) : ofBytes (toBytes text) = text := by
  have hascii : ∀ u ∈ text, u.toNat < 256 := by
    have hlabel : ∀ u ∈ sampleLabel n, u.toNat < 256 := by
      intro u hu
      rw [List.eq_of_mem_replicate hu]
      decide
    simp only [List.mem_cons, List.not_mem_nil, or_false] at h
    obtain rfl | rfl := h
    · simp only [sampleShareJson, List.forall_mem_append]
      exact ⟨⟨lt_of_mem_literal, hlabel⟩, lt_of_mem_literal⟩
    · simp only [sampleRecoveryJson, samplePhrase, List.forall_mem_append]
      exact ⟨⟨⟨⟨lt_of_mem_literal, lt_of_mem_literal, lt_of_mem_literal⟩, lt_of_mem_literal⟩,
        hlabel⟩, lt_of_mem_literal⟩
  exact ofBytes_toBytes hascii

theorem share_json_ne : sampleShareJson n ≠ sampleRecoveryJson n := by
  intro h
  have hhead := congrArg List.head? h
  cases hhead

theorem uriText_sample (fragment : CodeUnits) :
    uriText (samplePackages n) fragment = sampleOrigin ++ fragment :=
  congrArg (· ++ fragment) (by simp only [samplePackages]; decide)

/-- The packages are faithful. -/
theorem samplePackages_faithful : (samplePackages n).Faithful where
  jsonDecode_jsonEncode := by
    intro value text h
    simp only [samplePackages] at h ⊢
    split_ifs at h with hshare hrecovery
    · obtain rfl := Option.some.inj h
      rw [if_pos rfl, hshare]
    · obtain rfl := Option.some.inj h
      rw [if_neg (share_json_ne n).symm, if_pos rfl, hrecovery]
  utf8Decode_utf8Encode := by
    intro value text h
    simp only [samplePackages] at h ⊢
    rw [ofBytes_toBytes_json n]
    split_ifs at h <;> simp [Option.some.inj h]
  utf8Encode_ne_nil := by
    intro value text h
    simp only [samplePackages] at h ⊢
    split_ifs at h
    · obtain rfl := Option.some.inj h
      exact List.cons_ne_nil _ _
    · obtain rfl := Option.some.inj h
      exact List.cons_ne_nil _ _
  base64Decode_base64UrlEncode := by
    intro bytes
    simp only [samplePackages, filter_base64UrlEncode, toBytes_ofBytes, Base64Url.decode_encode]
  base64Decode_unpadded := by
    intro bytes
    simp only [samplePackages, filter_encode, toBytes_ofBytes, Base64Url.decode_encode]
  toLowerCase_scheme := by
    simp only [samplePackages]
    decide
  toLowerCase_host := by
    simp only [samplePackages]
    decide
  tryParseUri_uriText := by
    intro fragment _
    have hfront : sampleOrigin.isPrefixOf (sampleOrigin ++ fragment) := by
      simp
    rw [uriText_sample]
    simp only [samplePackages, hfront, if_true, List.drop_left]

theorem sample_label : (sampleLink n).canonicalPayload.label = sampleLabel n :=
  trim_of_forall fun u hu => by
    rw [List.eq_of_mem_replicate hu]
    rfl

/-- The label is the last entry. -/
theorem removeTrailingNulls_sample :
    removeTrailingNulls (compactEntries (sampleLink n).canonicalPayload sampleEntropy) =
      compactEntries (sampleLink n).canonicalPayload sampleEntropy := by
  have hlabel : ¬ sampleLabel n = defaultLabel := by
    intro h
    have hmem : (0x50 : UInt16) ∈ sampleLabel n := by
      rw [h]
      decide
    exact absurd (List.eq_of_mem_replicate hmem) (by decide)
  rw [removeTrailingNulls, if_neg]
  rintro ⟨-, hnull⟩
  rw [compactEntries, sample_label, if_neg hlabel] at hnull
  cases hnull

theorem sample_network : supportsNetwork (samplePackages n) (sampleLink n).network := by
  have hmain : trim (literal "main") = literal "main" := by decide
  exact .inl hmain

theorem sample_mnemonic : (sampleLink n).canonicalPayload.mnemonic = samplePhrase := by
  have htrim : trim samplePhrase = samplePhrase := by decide
  exact htrim

theorem sample_entropy :
    mnemonicToEntropy (samplePackages n) samplePhrase = some sampleEntropy := by
  have hlength : (toBytes samplePhrase).length ≤ 512 := by decide
  have hguard : guard (((samplePackages n).utf8Encode samplePhrase).length ≤ 512) = some () :=
    if_pos hlength
  have hentropy : (samplePackages n).fromPhrase samplePhrase = some sampleEntropy := by
    simp [samplePackages]
  have hphrase : (samplePackages n).fromEntropy sampleEntropy = some samplePhrase := by
    simp [samplePackages]
  simp [mnemonicToEntropy, hguard, hentropy, hphrase]

theorem encode_sample : encode (samplePackages n) (sampleLink n) none =
    .ok (encodeBase64 (toBytes (sampleShareJson n))) := by
  have hranges : ¬ (1 : Int64) ≤ 0 ∧ ¬ (0xffffffff : Int64) < 1 ∧ ¬ (1 : ℤ) ≤ 0 ∧
      ¬ maxAmount < 1 := by decide
  refine encode_eq_ok.2 ⟨?_, presentable_of_none rfl, sampleEntropy, ?_, by decide,
    sampleShareJson n, ?_, rfl⟩
  · have hnetwork := sample_network n
    rw [supportsNetwork, ← trim_trim] at hnetwork
    exact ensure_of _ ⟨hnetwork, hranges⟩
  · rw [sample_mnemonic]
    exact sample_entropy n
  · rw [removeTrailingNulls_sample]
    exact if_pos rfl

theorem jsonEncode_sampleRecovery :
    (samplePackages n).jsonEncode (sampleLink n).canonicalPayload.value =
      some (sampleRecoveryJson n) := by
  have hne : (sampleLink n).canonicalPayload.value ≠
      .list (compactEntries (sampleLink n).canonicalPayload sampleEntropy) := nofun
  simp only [samplePackages, if_neg hne, if_true]

theorem encodedPayload_sample : (sampleLink n).encodedPayload (samplePackages n) =
    .ok (base64UrlEncode (toBytes (sampleRecoveryJson n))) :=
  encodedPayload_eq_ok.2 ⟨sample_network n, presentable_of_none rfl, _, jsonEncode_sampleRecovery n,
    rfl⟩

theorem length_sampleShareJson : (toBytes (sampleShareJson n)).length = n + 57 := by
  have hopen : (literal "[\"main\",\"AAAAAAAAAAAAAAAAAAAAAA\",1,\"1\",null,null,null,\"").length =
      55 := by decide
  have hclose : (literal "\"]").length = 2 := by decide
  simp only [toBytes, List.length_map, sampleShareJson, List.length_append, hopen, hclose,
    sampleLabel, List.length_replicate]
  omega

theorem length_sampleRecoveryJson : (toBytes (sampleRecoveryJson n)).length = n + 181 := by
  have hopen : (literal
      "\x7b\"v\":2,\"network\":\"main\",\"amountZatoshi\":\"1\",\"mnemonic\":\"").length = 56 := by
    decide
  have hphrase : samplePhrase.length = 93 := by decide
  have hlabel : (literal "\",\"birthdayHeight\":1,\"label\":\"").length = 30 := by decide
  have hclose : (literal "\"\x7d").length = 2 := by decide
  simp only [toBytes, List.length_map, sampleRecoveryJson, List.length_append, hopen, hphrase,
    hlabel, hclose, sampleLabel, List.length_replicate]
  omega

/-- The text that is shared. -/
def sampleShareText : CodeUnits :=
  sampleOrigin ++ (literal "v3=" ++ encodeBase64 (toBytes (sampleShareJson n)))

/-- The text that is stored. -/
def sampleRecoveryText : CodeUnits :=
  sampleOrigin ++ (literal "v2=" ++ base64UrlEncode (toBytes (sampleRecoveryJson n)))

theorem length_sampleOrigin (version payload : CodeUnits) (h : version.length = 3) :
    (sampleOrigin ++ (version ++ payload)).length = 41 + payload.length := by
  have horigin : sampleOrigin.length = 38 := by decide
  rw [List.length_append, List.length_append, horigin, h]
  omega

/-- The link is shared up to a label of 12200 letters. -/
theorem toShareUri_sample (hn : n ≤ 12200) :
    (sampleLink n).toShareUri (samplePackages n) = .ok (sampleShareText n) := by
  refine toShareUri_eq_ok.2 ⟨_, encode_sample n, uri_eq_ok.2 ⟨?_, uriText_sample n _⟩⟩
  rw [uriText_sample, length_sampleOrigin _ _ (by decide), length_encodeBase64,
    length_sampleShareJson, maxEncodedLength]
  omega

/-- The link is stored up to a label of 12074 letters. -/
theorem toRecoveryUri_sample {text : CodeUnits} :
    (sampleLink n).toRecoveryUri (samplePackages n) = .ok text ↔
      n ≤ 12074 ∧ sampleRecoveryText n = text := by
  have hfits : (sampleRecoveryText n).length ≤ maxEncodedLength ↔ n ≤ 12074 := by
    rw [sampleRecoveryText, length_sampleOrigin _ _ (by decide), length_base64UrlEncode,
      length_sampleRecoveryJson, maxEncodedLength]
    omega
  rw [toRecoveryUri_eq_ok, encodedPayload_sample, ← hfits]
  constructor
  · rintro ⟨payload, hpayload, huri⟩
    obtain rfl := Except.ok.inj hpayload
    rw [uri_eq_ok, uriText_sample] at huri
    exact huri
  · rintro ⟨hlength, htext⟩
    refine ⟨_, rfl, uri_eq_ok.2 ?_⟩
    rw [uriText_sample]
    exact ⟨hlength, htext⟩

/-- The established text without the padding of its base64. -/
def sampleUnpaddedText : CodeUnits :=
  sampleOrigin ++ (literal "v2=" ++ encodeBase64 (toBytes (sampleRecoveryJson n)))

/-- The link is accepted without padding up to a label of 12076 letters. -/
theorem parse_sampleUnpadded (hn : n ≤ 12076) :
    parse (samplePackages n) (sampleUnpaddedText n) =
      .ok ((sampleLink n).canonicalPayload.toLink ℕ) := by
  have hP := samplePackages_faithful n
  have hunits : ∀ u ∈ encodeBase64 (toBytes (sampleRecoveryJson n)), isUrlSafe u := by
    rw [encodeBase64_eq]
    exact fun u hu => isUrlSafe_of_mem_encode hu
  have hlength : (uriText (samplePackages n)
      (literal "v2=" ++ encodeBase64 (toBytes (sampleRecoveryJson n)))).length ≤
        maxEncodedLength := by
    rw [uriText_sample, length_sampleOrigin _ _ (by decide), length_encodeBase64,
      length_sampleRecoveryJson, maxEncodedLength]
    omega
  have hparse := parse_established hP (fun u hu => .inl (hunits u hu)) hlength
  rw [uriText_sample] at hparse
  obtain ⟨hnetwork, hpresentable, -⟩ := encodedPayload_eq_ok.1 (encodedPayload_sample n)
  have hfields : (0 : ℤ) < 1 ∧ (0 : Int64) < 1 ∧ 12 ≤ wordCount (trim samplePhrase) := by decide
  refine hparse.trans (parsePayload_of_read ?_ ?_ ?_ hnetwork hpresentable hfields.1 hfields.2.1
    hfields.2.2)
  · rw [← List.length_pos_iff, length_encodeBase64, length_sampleRecoveryJson]
    omega
  · exact fun hmem => absurd (hunits _ hmem) (by decide)
  · have hjson := jsonEncode_sampleRecovery n
    have hdecode := hP.base64Decode_unpadded (toBytes (sampleRecoveryJson n))
    rw [← encodeBase64_eq] at hdecode
    have htext : (samplePackages n).utf8Decode (toBytes (sampleRecoveryJson n)) =
        some (sampleRecoveryJson n) := hP.utf8Decode_utf8Encode hjson
    simp [hdecode, htext, hP.jsonDecode_jsonEncode hjson]

end Sample

/-- A label of five letters is shared and stored. -/
theorem gift_link_round_trip_sample :
    ∃ parsed, parse (samplePackages 5) (sampleShareText 5) = .ok parsed ∧
      parsed.canonicalPayload = (sampleLink 5).canonicalPayload ∧
      (sampleLink 5).hasSameCanonicalPayload (samplePackages 5) parsed = .ok true ∧
      parsed.address = none ∧ parsed.createdAt = none :=
  (gift_link_round_trip (samplePackages_faithful 5)).1 _ _ _ (toShareUri_sample 5 (by decide))
    ((toRecoveryUri_sample 5).2 ⟨by decide, rfl⟩)

/-- A label of 12100 letters is shared, and the text that was shared does not parse. A label of
12076 letters is accepted in 16384 characters without padding, and with padding it is too long. -/
theorem gift_link_limits :
    (¬ ∀ (P : Packages ℤ ℕ), P.Faithful →
      ∀ (link : VizorPaymentLink ℤ ℕ) (text : CodeUnits), supportsNetwork P link.network →
        link.toShareUri P = .ok text → ∃ parsed, parse P text = .ok parsed) ∧
    ¬ ∀ (P : Packages ℤ ℕ), P.Faithful →
      ∀ (raw : CodeUnits) (parsed : VizorPaymentLink ℤ ℕ), parse P raw = .ok parsed →
        ∃ recovery, parsed.toRecoveryUri P = .ok recovery := by
  constructor
  · intro h
    obtain ⟨parsed, hparsed⟩ := h (samplePackages 12100) (samplePackages_faithful 12100)
      (sampleLink 12100) _ (sample_network 12100) (toShareUri_sample 12100 (by decide))
    obtain ⟨-, recovery, hrecovery⟩ := (parse_of_toShareUri (samplePackages_faithful 12100)
      (toShareUri_sample 12100 (by decide))).1 hparsed
    exact absurd ((toRecoveryUri_sample 12100).1 hrecovery).1 (by decide)
  · intro h
    obtain ⟨recovery, hrecovery⟩ := h (samplePackages 12076) (samplePackages_faithful 12076) _ _
      (parse_sampleUnpadded 12076 le_rfl)
    have hpresentable : (sampleLink 12076).Presentable (samplePackages 12076) :=
      presentable_of_none rfl
    rw [hpresentable.toRecoveryUri_toLink] at hrecovery
    exact absurd ((toRecoveryUri_sample 12076).1 hrecovery).1 (by decide)

end VizorWallet.PaymentLink
