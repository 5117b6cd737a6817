import VizorWallet.Contact.Parts

/-!
# Honest introductions succeed

The four builders, run in turn by honest parties, succeed, and the delivery is accepted until the
request expires.

## Main definitions

* `Fits` — a plain value whose nesting and whose text are bounded.

## Main results

* `createAsk_ok`, `createOffer_ok`, `createConsent_ok`, `createDelivery_ok` — the builders.
* `introduction_complete` — the whole exchange.
-/

namespace VizorWallet.Contact

open Json

/-! ## The length of a text -/

/-- A plain value of at most `d` levels whose text has at most `n` bytes. -/
structure Fits (d n : ℕ) (value : Value) : Prop where
  plain : value.Plain
  depth_le : value.depth ≤ d
  length_le : value.print.length ≤ n

variable {d : ℕ}

theorem Fits.mono {m n : ℕ} {value : Value} (h : Fits d m value) (hle : m ≤ n) :
    Fits d n value :=
  ⟨h.plain, h.depth_le, h.length_le.trans hle⟩

theorem fits_string {s : Bytes} {n : ℕ} (h : isAscii s) (hle : s.length ≤ n) :
    Fits d (6 * n + 2) (.string s) := by
  refine ⟨.string h, Nat.zero_le d, ?_⟩
  have hlength := length_printString_le s
  simp only [Value.print]
  omega

theorem fits_number {n : ℕ} (h : n ≤ maxSafeInteger) : Fits d 16 (.number n) := by
  have hsize : maxSafeInteger < u64Size := by decide
  have hdigits : maxSafeInteger < 10 ^ 16 := by decide
  refine ⟨.number (by omega), Nat.zero_le d, ?_⟩
  simpa [Value.print] using length_decimal_le (k := 16) (by decide) (by omega)

theorem isBare_of_isUrlSafe {c : UInt8} (h : Base64Url.isUrlSafe c) : IsBare c := by
  have hne : ∀ x : UInt8, Base64Url.isUrlSafe x = false → c ≠ x := by
    rintro x hx rfl
    rw [h] at hx
    cases hx
  have hge : ¬c < 0x20 := by
    intro hlt
    have hcontrol : ∀ n, n < 32 → Base64Url.isUrlSafe (UInt8.ofNat n) = false := by decide
    have hc := hcontrol c.toNat (UInt8.lt_iff_toNat_lt.1 hlt)
    rw [UInt8.ofNat_toNat, h] at hc
    cases hc
  simp [IsBare, Value.escape, hne 0x22 rfl, hne 0x5c rfl, hne 0x08 rfl, hne 0x0c rfl, hne 0x0a rfl,
    hne 0x0d rfl, hne 0x09 rfl, hge]

theorem fits_encode {bytes : Bytes} {n : ℕ} (h : bytes.length ≤ n) :
    Fits d ((4 * n + 2) / 3 + 2) (.string (Base64Url.encode bytes)) := by
  refine ⟨plain_encode bytes, Nat.zero_le d, ?_⟩
  rw [Value.print, length_printString_of_bare fun c hc =>
    isBare_of_isUrlSafe (Base64Url.isUrlSafe_of_mem_encode hc), Base64Url.length_encode]
  omega

theorem fits_digest {P : Packages} (value : Value) : Fits d 45 (digest P value) :=
  fits_encode (P.sha256 (digestInput value)).property.le

/-- An array is one level deeper than its items, which cost one byte each more than their texts. -/
theorem fits_array {ns : List ℕ} {values : List Value} (h : List.Forall₂ (Fits d) ns values)
    (hne : values ≠ []) : Fits (d + 1) (1 + (ns.map (1 + ·)).sum) (.array values) := by
  have hbound : (∀ v ∈ values, v.Plain) ∧ (∀ v ∈ values, v.depth ≤ d) ∧
      (values.map fun v => 1 + v.print.length).sum ≤ (ns.map (1 + ·)).sum := by
    clear hne
    induction h with
    | nil => simp
    | cons hfits _ ih =>
      have hle := hfits.length_le
      refine ⟨?_, ?_, ?_⟩
      · simpa using ⟨hfits.plain, ih.1⟩
      · simpa using ⟨hfits.depth_le, ih.2.1⟩
      · simp only [List.map_cons, List.sum_cons]
        omega
  refine ⟨.array hbound.1, Value.depth_array_le.2 hbound.2.1, ?_⟩
  rw [length_print_array hne]
  omega

theorem fits_text {n : ℕ} (s : String) (h : isAscii (ascii s) ∧ (ascii s).length ≤ n) :
    Fits d (6 * n + 2) (text s) :=
  fits_string h.1 h.2

theorem fits_wireName (network : Network) : Fits d 80 (.string network.wireName) := by
  cases network <;> exact fits_string (n := 13) (by decide) (by decide)

theorem fits_keyIdentity {P : Packages} (seed : Fixed 32) :
    Fits d 308 (.string (keyIdentity P seed)) := by
  refine fits_string (n := 51) (isAscii_keyIdentity seed) ?_
  rw [keyIdentity, List.length_append, Base64Url.length_encode, (P.verifyingKey seed).property]
  decide

theorem RequestOf.fits {value : Value} {network : Network} {issued ttl : ℕ}
    (h : RequestOf value network issued ttl) : Fits (d + 1) 400 value := by
  obtain ⟨⟨domain, sid, httl, rfl⟩, hle⟩ := h
  have hdomain : isAscii domain ∧ domain.length ≤ 30 := by
    unfold lifetime at httl
    split_ifs at httl with h1 h2
    · rw [h1]
      decide
    · rw [h2]
      decide
  exact (fits_array (.cons (fits_string hdomain.1 hdomain.2) (.cons (fits_wireName network)
    (.cons (fits_encode sid.property.le) (.cons (fits_number (by omega))
      (.cons (fits_number hle) .nil))))) (by simp)).mono (by simp)

/-! ## Honest parts -/

variable {P : Packages} (hP : P.Honest)

include hP in
/-- Four levels are enough for a package. -/
theorem canonical_of_fits {n : ℕ} {value : Value} (h : Fits 4 n value) (hle : n ≤ maxInputBytes) :
    canonical P value.print = some value :=
  hP.canonical_print h.plain (h.depth_le.trans_lt (by decide)) (h.length_le.trans hle)

include hP in
/-- An honest signature carries its payload. -/
theorem carries_signed {n : ℕ} {payload : Value} (h : Fits 4 n payload) (hle : n ≤ 8_900)
    (hne : payload.print ≠ []) (key : Fixed 32) :
    Carries P (signed P payload key) payload (keyIdentity P key) := by
  have hlength := h.length_le
  refine ⟨P.sign key payload.print, rfl, decode_eq_some.2 ⟨rfl, hne, ?_⟩,
    canonical_of_fits hP h (hle.trans (by decide)), P.verifyingKey key,
    hP.identity_keyIdentity key, hP.verifySignature_sign key _⟩
  rw [Base64Url.length_encode, maxEncodedBytes]
  omega

variable (P) in
theorem fits_signed {n : ℕ} {payload : Value} (h : Fits 4 n payload) (key : Fixed 32) :
    Fits (d + 1) ((4 * n + 2) / 3 + 93) (signed P payload key) :=
  (fits_array (.cons (fits_encode h.length_le)
    (.cons (fits_encode (P.sign key payload.print).property.le) .nil)) (by simp)).mono
    (by simp only [List.map_cons, List.map_nil, List.sum_cons, List.sum_nil]; omega)

include hP in
theorem paired_keyIdentity {seed seed' : Fixed 32}
    (h : P.verifyingKey seed ≠ P.verifyingKey seed') :
    paired P (keyIdentity P seed) (keyIdentity P seed') = some () :=
  paired_eq_some.2 ⟨⟨_, hP.identity_keyIdentity seed⟩, ⟨_, hP.identity_keyIdentity seed'⟩,
    fun heq => h (keyIdentity_inj.1 heq)⟩

theorem signingKey_val (seed : Fixed 32) : signingKey seed.val = .ok seed :=
  dif_pos seed.property

section Exchange

variable (network : Network) (sid ab ba ac ca bc : Fixed 32) (issued : ℕ)
  {s₁ s₂ address : Bytes} {validateUa : Network → Bytes → Bool} {r : Value} {now ttl : ℕ}

/-- The request of an ask. -/
def askRequest : Value :=
  .array [text "zcash-contact/intro-invitation", .string network.wireName,
    .string (Base64Url.encode sid.val), .number issued, .number (issued + invitationTtl)]

theorem requestOf_askRequest (h : issued + invitationTtl ≤ maxSafeInteger) :
    RequestOf (askRequest network sid issued) network issued invitationTtl :=
  ⟨⟨_, sid, by decide, rfl⟩, h⟩

include hP in
/-- Carol asks Alice. -/
theorem createAsk_ok (hne : P.verifyingKey ac ≠ P.verifyingKey ca)
    (hmax : issued + invitationTtl ≤ maxSafeInteger) :
    ∃ packet, createAsk P (some sid) network (keyIdentity P ac) ca.val issued =
        .ok (baseVerified P packet (askRequest network sid issued) (issued + invitationTtl)) ∧
      canonical P packet = some (.array [text "zcash-contact/intro-ask-package",
        askRequest network sid issued,
        signed P (askPayload P (askRequest network sid issued) (keyIdentity P ac)) ca]) := by
  have hsize : maxSafeInteger < u64Size := by decide
  have hrequest := requestOf_askRequest network sid issued hmax
  have hfits : Fits 4 700 (askPayload P (askRequest network sid issued) (keyIdentity P ac)) :=
    (fits_array (.cons (fits_text (n := 30) _ (by decide)) (.cons (fits_digest _)
      (.cons (fits_keyIdentity ac) .nil))) (by simp)).mono (by simp)
  have hcarries := carries_signed hP hfits (by decide) (by simp [askPayload, Value.print]) ca
  have hpacket := canonical_of_fits hP (fits_array (.cons (fits_text (n := 40)
    "zcash-contact/intro-ask-package" (by decide)) (.cons hrequest.fits
      (.cons (fits_signed P hfits ca) .nil))) (by simp)) (by simp [maxInputBytes])
  have hexpires : (checkedAdd issued invitationTtl).filter (· ≤ maxSafeInteger) =
      some (issued + invitationTtl) := by
    rw [Option.filter_eq_some_iff, checkedAdd_eq_some, decide_eq_true_eq]
    exact ⟨⟨by omega, rfl⟩, hmax⟩
  refine ⟨_, ?_, hpacket⟩
  rw [createAsk]
  refine bind_eq_ok.2 ⟨ca, signingKey_val ca, ?_⟩
  refine bind_eq_ok.2 ⟨(), orError_eq_ok.2 (paired_keyIdentity hP hne), ?_⟩
  refine bind_eq_ok.2 ⟨_, orError_eq_ok.2 hexpires, ?_⟩
  refine bind_eq_ok.2 ⟨sid, rfl, orError_eq_ok.2 ?_⟩
  exact verifyInner_ask.2 ⟨paired_keyIdentity hP hne.symm, rfl, rfl, _, _, issued, invitationTtl,
    hpacket, ⟨hrequest, le_rfl, by simp [invitationTtl]⟩, hcarries, rfl⟩

/-- The offer of Alice to Bob. -/
def offerEnvelope (P : Packages) (r : Value) (ab ba : Fixed 32) (s₁ : Bytes) : Value :=
  signed P (offerPayload (digest P r) (keyIdentity P ba) s₁) ab

variable (P) in
theorem fits_offerPayload (r : Value) (hs : IsSuggestion s₁) :
    Fits 4 800 (offerPayload (digest P r) (keyIdentity P ba) s₁) :=
  (fits_array (.cons (fits_text (n := 40) _ (by decide)) (.cons (fits_digest _)
    (.cons (fits_keyIdentity ba) (.cons (fits_string hs.isAscii hs.2.1) .nil))))
    (by simp)).mono (by simp)

include hP in
/-- The offer verifies. -/
theorem offer_offerEnvelope (r : Value) (hs : IsSuggestion s₁) :
    offer P (offerEnvelope P r ab ba s₁) (digest P r) (keyIdentity P ab) (keyIdentity P ba) =
      some s₁ :=
  offer_eq_some.2 ⟨carries_signed hP (fits_offerPayload P ba r hs) (by decide)
    (by simp [offerPayload, Value.print]) ab, hs⟩

variable (P) in
theorem fits_offerEnvelope (r : Value) (hs : IsSuggestion s₁) :
    Fits (d + 1) 1_200 (offerEnvelope P r ab ba s₁) :=
  (fits_signed P (fits_offerPayload P ba r hs) ab).mono (by simp)

include hP in
/-- Alice offers the introduction to Bob. -/
theorem createOffer_ok (hne : P.verifyingKey ab ≠ P.verifyingKey ba)
    (halive : Alive r network now issued ttl) (hs : IsSuggestion s₁) :
    ∃ packet, createOffer P network r.print (keyIdentity P ba) ab.val s₁ now =
        .ok { baseVerified P packet r (issued + ttl) with
          suggestion := some s₁, offerJson := some (offerEnvelope P r ab ba s₁).print } ∧
      canonical P packet = some (.array [text "zcash-contact/intro-offer-package", r,
        offerEnvelope P r ab ba s₁]) := by
  have hrequest := canonical_of_fits hP halive.request.fits (by decide)
  have hhash : request P r network now = some (digest P r) :=
    request_eq_some_iff_alive.2 ⟨issued, ttl, halive, rfl⟩
  have hpacket := canonical_of_fits hP (fits_array (.cons (fits_text (n := 40)
    "zcash-contact/intro-offer-package" (by decide)) (.cons halive.request.fits
      (.cons (fits_offerEnvelope P ab ba r hs) .nil))) (by simp)) (by simp [maxInputBytes])
  refine ⟨_, ?_, hpacket⟩
  rw [createOffer]
  refine bind_eq_ok.2 ⟨ab, signingKey_val ab, ?_⟩
  refine bind_eq_ok.2 ⟨(), orError_eq_ok.2 (paired_keyIdentity hP hne.symm), ?_⟩
  refine bind_eq_ok.2 ⟨r, orError_eq_ok.2 hrequest, ?_⟩
  refine bind_eq_ok.2 ⟨_, orError_eq_ok.2 hhash, ?_⟩
  refine bind_eq_ok.2 ⟨s₁, orError_eq_ok.2 (suggestion_eq_some.2 ⟨rfl, hs⟩), orError_eq_ok.2 ?_⟩
  exact verifyInner_offer.2 ⟨paired_keyIdentity hP hne, rfl, rfl, _, _, issued, ttl, s₁, hpacket,
    halive, offer_offerEnvelope hP ab ba r hs, rfl⟩

/-- The endpoint of Bob for Carol. -/
def endpointEnvelope (P : Packages) (network : Network) (r : Value) (bc : Fixed 32)
    (address : Bytes) : Value :=
  signed P (endpointPayload network (digest P r) (keyIdentity P bc) address) bc

/-- An address that the wallet accepts, in ASCII. -/
structure IsAddress (network : Network) (address : Bytes)
    (validateUa : Network → Bytes → Bool) : Prop where
  ascii : isAscii address
  valid : validAddress network address validateUa = some ()

variable (P) in
theorem fits_endpointPayload (r : Value) (haddress : IsAddress network address validateUa) :
    Fits 4 3_800 (endpointPayload network (digest P r) (keyIdentity P bc) address) := by
  have hlength := (validAddress_eq_some.1 haddress.valid).2.1
  exact (fits_array (.cons (fits_text (n := 30) _ (by decide)) (.cons (fits_wireName network)
    (.cons (fits_digest _) (.cons (fits_keyIdentity bc) (.cons (fits_number (by decide))
      (.cons (fits_string haddress.ascii hlength) .nil)))))) (by simp)).mono (by simp)

variable (P) in
theorem fits_endpointEnvelope (r : Value) (haddress : IsAddress network address validateUa) :
    Fits (d + 1) 5_200 (endpointEnvelope P network r bc address) :=
  (fits_signed P (fits_endpointPayload P network bc r haddress) bc).mono (by simp)

include hP in
/-- The endpoint verifies between two parties with other keys. -/
theorem endpoint_endpointEnvelope (r : Value) (haddress : IsAddress network address validateUa)
    {peer own : Fixed 32} (hpeer : P.verifyingKey bc ≠ P.verifyingKey peer)
    (hown : P.verifyingKey bc ≠ P.verifyingKey own) :
    endpoint P (endpointEnvelope P network r bc address) (digest P r) network
      (keyIdentity P peer) (keyIdentity P own) validateUa =
        some (keyIdentity P bc, address) :=
  endpoint_eq_some.2 ⟨carries_signed hP (fits_endpointPayload P network bc r haddress) (by decide)
    (by simp [endpointPayload, Value.print]) bc, fun heq => hpeer (keyIdentity_inj.1 heq),
    fun heq => hown (keyIdentity_inj.1 heq), haddress.valid⟩

/-- The consent of Bob. -/
def consentEnvelope (P : Packages) (r o e : Value) (ba : Fixed 32) : Value :=
  signed P (consentPayload P r o e) ba

variable (P) in
theorem fits_consentPayload (r o e : Value) : Fits 4 400 (consentPayload P r o e) :=
  (fits_array (.cons (fits_text (n := 40) _ (by decide)) (.cons (fits_digest _)
    (.cons (fits_digest _) (.cons (fits_digest _) .nil)))) (by simp)).mono (by simp)

include hP in
/-- The consent verifies while the request is alive. -/
theorem verify_consent (hne : P.verifyingKey ab ≠ P.verifyingKey ba)
    (hab : P.verifyingKey bc ≠ P.verifyingKey ab) (hba : P.verifyingKey bc ≠ P.verifyingKey ba)
    (halive : Alive r network now issued ttl) (hs : IsSuggestion s₁)
    (haddress : IsAddress network address validateUa) {packet : Bytes}
    (hpacket : canonical P packet = some (.array [text "zcash-contact/intro-consent-package", r,
      endpointEnvelope P network r bc address,
      consentEnvelope P r (offerEnvelope P r ab ba s₁)
        (endpointEnvelope P network r bc address) ba])) :
    verify P .consent network (keyIdentity P ba) (keyIdentity P ab) (some r.print)
        (some (offerEnvelope P r ab ba s₁).print) packet now validateUa =
      .ok { baseVerified P packet r (issued + ttl) with
        offerJson := some (offerEnvelope P r ab ba s₁).print
        identity := some (keyIdentity P bc), address := some address, sequence := some 1
        endpointJson := some (endpointEnvelope P network r bc address).print
        endpointHash := some (digestText P (endpointEnvelope P network r bc address)) } := by
  have hrequest := canonical_of_fits hP halive.request.fits (by decide)
  have hofferText := canonical_of_fits hP (fits_offerEnvelope P ab ba r hs) (by decide)
  have hcarries := carries_signed hP (fits_consentPayload P r (offerEnvelope P r ab ba s₁)
    (endpointEnvelope P network r bc address)) (by decide)
    (by simp [consentPayload, Value.print]) ba
  exact orError_eq_ok.2 (verifyInner_consent.2 ⟨paired_keyIdentity hP hne.symm, r, _, _, issued,
    ttl, _, s₁, _, _, hpacket, halive, matchesSaved_eq_some.2 ⟨rfl, hrequest⟩,
    matchesSaved_eq_some.2 ⟨rfl, hofferText⟩, offer_offerEnvelope hP ab ba r hs, hcarries,
    endpoint_endpointEnvelope hP network bc r haddress hba hab, rfl⟩)

include hP in
/-- Bob consents and gives a fresh endpoint. -/
theorem createConsent_ok (hne : P.verifyingKey ab ≠ P.verifyingKey ba)
    (hab : P.verifyingKey bc ≠ P.verifyingKey ab) (hba : P.verifyingKey bc ≠ P.verifyingKey ba)
    (halive : Alive r network now issued ttl) (hs : IsSuggestion s₁)
    (haddress : IsAddress network address validateUa) {offerPacket : Bytes}
    (hoffer : canonical P offerPacket = some (.array [text "zcash-contact/intro-offer-package", r,
      offerEnvelope P r ab ba s₁])) :
    ∃ packet, createConsent P network (keyIdentity P ab) ba.val bc.val address offerPacket now
        validateUa = .ok { baseVerified P packet r (issued + ttl) with
          offerJson := some (offerEnvelope P r ab ba s₁).print
          identity := some (keyIdentity P bc), address := some address, sequence := some 1
          endpointJson := some (endpointEnvelope P network r bc address).print
          endpointHash := some (digestText P (endpointEnvelope P network r bc address)) } ∧
      canonical P packet = some (.array [text "zcash-contact/intro-consent-package", r,
        endpointEnvelope P network r bc address,
        consentEnvelope P r (offerEnvelope P r ab ba s₁) (endpointEnvelope P network r bc address)
          ba]) := by
  have hrequest := canonical_of_fits hP halive.request.fits (by decide)
  have hofferText := canonical_of_fits hP (fits_offerEnvelope P ab ba r hs) (by decide)
  have hendpoint := endpoint_endpointEnvelope hP network bc r haddress hab hba
  have hverified : verify P .offer network (keyIdentity P ab) (keyIdentity P ba) none none
      offerPacket now validateUa = .ok { baseVerified P offerPacket r (issued + ttl) with
        suggestion := some s₁, offerJson := some (offerEnvelope P r ab ba s₁).print } :=
    orError_eq_ok.2 (verifyInner_offer.2 ⟨paired_keyIdentity hP hne, rfl, rfl, _, _, issued, ttl,
      s₁, hoffer, halive, offer_offerEnvelope hP ab ba r hs, rfl⟩)
  have hpacket := canonical_of_fits hP (fits_array (.cons (fits_text (n := 40)
    "zcash-contact/intro-consent-package" (by decide)) (.cons halive.request.fits
      (.cons (fits_endpointEnvelope P network bc r haddress) (.cons (fits_signed P
        (fits_consentPayload P r (offerEnvelope P r ab ba s₁)
          (endpointEnvelope P network r bc address)) ba) .nil)))) (by simp))
    (by simp [maxInputBytes])
  refine ⟨_, ?_, hpacket⟩
  rw [createConsent]
  refine bind_eq_ok.2 ⟨ba, signingKey_val ba, ?_⟩
  refine bind_eq_ok.2 ⟨bc, signingKey_val bc, ?_⟩
  refine bind_eq_ok.2 ⟨_, hverified, ?_⟩
  refine bind_eq_ok.2 ⟨r, orError_eq_ok.2 hrequest, ?_⟩
  refine bind_eq_ok.2 ⟨_, rfl, ?_⟩
  refine bind_eq_ok.2 ⟨_, orError_eq_ok.2 hofferText, ?_⟩
  refine bind_eq_ok.2 ⟨_, orError_eq_ok.2 hendpoint, ?_⟩
  exact verify_consent hP network ab ba bc issued hne hab hba halive hs haddress hpacket

/-- The endorsement of Alice. -/
def endorsementEnvelope (P : Packages) (network : Network) (r e : Value) (ac : Fixed 32)
    (s₂ : Bytes) : Value :=
  signed P (endorsementPayload P network r e s₂) ac

variable (P) in
theorem fits_endorsementPayload (r e : Value) (hs : IsSuggestion s₂) :
    Fits 4 600 (endorsementPayload P network r e s₂) :=
  (fits_array (.cons (fits_text (n := 40) _ (by decide)) (.cons (fits_wireName network)
    (.cons (fits_digest _) (.cons (fits_digest _)
      (.cons (fits_string hs.isAscii hs.2.1) .nil))))) (by simp)).mono (by simp)

include hP in
/-- The delivery verifies while the request is alive. -/
theorem verify_delivery (hne : P.verifyingKey ac ≠ P.verifyingKey ca)
    (hac : P.verifyingKey bc ≠ P.verifyingKey ac) (hca : P.verifyingKey bc ≠ P.verifyingKey ca)
    (halive : Alive r network now issued ttl) (hs : IsSuggestion s₂)
    (haddress : IsAddress network address validateUa) {packet : Bytes}
    (hpacket : canonical P packet = some (.array [text "zcash-contact/intro-delivery", r,
      endpointEnvelope P network r bc address,
      endorsementEnvelope P network r (endpointEnvelope P network r bc address) ac s₂])) :
    verify P .delivery network (keyIdentity P ac) (keyIdentity P ca) (some r.print) none packet
        now validateUa =
      .ok { baseVerified P packet r (issued + ttl) with
        suggestion := some s₂
        endorsementHash := some (digestText P (endorsementEnvelope P network r
          (endpointEnvelope P network r bc address) ac s₂))
        identity := some (keyIdentity P bc), address := some address, sequence := some 1
        endpointJson := some (endpointEnvelope P network r bc address).print
        endpointHash := some (digestText P (endpointEnvelope P network r bc address)) } := by
  have hrequest := canonical_of_fits hP halive.request.fits (by decide)
  have hcarries := carries_signed hP (fits_endorsementPayload P network r
    (endpointEnvelope P network r bc address) hs) (by decide)
    (by simp [endorsementPayload, Value.print]) ac
  exact orError_eq_ok.2 (verifyInner_delivery.2 ⟨paired_keyIdentity hP hne, rfl, r, _, _, issued,
    ttl, s₂, _, _, hpacket, halive, matchesSaved_eq_some.2 ⟨rfl, hrequest⟩, hcarries, hs,
    endpoint_endpointEnvelope hP network bc r haddress hac hca, rfl⟩)

/-- The delivery to Carol. -/
def deliveryPackage (P : Packages) (network : Network) (r : Value) (bc ac : Fixed 32)
    (address s₂ : Bytes) : Value :=
  .array [text "zcash-contact/intro-delivery", r, endpointEnvelope P network r bc address,
    endorsementEnvelope P network r (endpointEnvelope P network r bc address) ac s₂]

include hP in
theorem canonical_deliveryPackage (hrequest : RequestOf r network issued ttl)
    (hs : IsSuggestion s₂) (haddress : IsAddress network address validateUa) :
    canonical P (deliveryPackage P network r bc ac address s₂).print =
      some (deliveryPackage P network r bc ac address s₂) :=
  canonical_of_fits hP (fits_array (.cons (fits_text (n := 40)
    "zcash-contact/intro-delivery" (by decide)) (.cons hrequest.fits
      (.cons (fits_endpointEnvelope P network bc r haddress) (.cons (fits_signed P
        (fits_endorsementPayload P network r (endpointEnvelope P network r bc address) hs) ac)
          .nil)))) (by simp)) (by simp [maxInputBytes])

include hP in
/-- Alice delivers the endpoint to Carol. -/
theorem createDelivery_ok (habba : P.verifyingKey ab ≠ P.verifyingKey ba)
    (hacca : P.verifyingKey ac ≠ P.verifyingKey ca)
    (hab : P.verifyingKey bc ≠ P.verifyingKey ab) (hba : P.verifyingKey bc ≠ P.verifyingKey ba)
    (hac : P.verifyingKey bc ≠ P.verifyingKey ac) (hca : P.verifyingKey bc ≠ P.verifyingKey ca)
    (halive : Alive r network now issued ttl) (hs₁ : IsSuggestion s₁) (hs₂ : IsSuggestion s₂)
    (haddress : IsAddress network address validateUa) {consentPacket : Bytes}
    (hconsent : canonical P consentPacket = some (.array
      [text "zcash-contact/intro-consent-package", r, endpointEnvelope P network r bc address,
        consentEnvelope P r (offerEnvelope P r ab ba s₁)
          (endpointEnvelope P network r bc address) ba])) :
    ∃ delivery, createDelivery P network (keyIdentity P ba) (keyIdentity P ab) (keyIdentity P ca)
        ac.val r.print (offerEnvelope P r ab ba s₁).print consentPacket s₂ now validateUa =
          .ok delivery ∧
      canonical P delivery.packetJson =
        some (deliveryPackage P network r bc ac address s₂) := by
  have hrequest := canonical_of_fits hP halive.request.fits (by decide)
  have hendpoint := canonical_of_fits hP (fits_endpointEnvelope P network bc r haddress)
    (by decide)
  have hpacket := canonical_deliveryPackage hP network ac bc issued halive.request hs₂ haddress
  obtain ⟨delivery, hdelivery, hjson⟩ : ∃ delivery, verify P .delivery network
      (keyIdentity P ac) (keyIdentity P ca) (some r.print) none
      (deliveryPackage P network r bc ac address s₂).print now validateUa = .ok delivery ∧
        delivery.packetJson = (deliveryPackage P network r bc ac address s₂).print :=
    ⟨_, verify_delivery hP network ac ca bc issued hacca hac hca halive hs₂ haddress hpacket, rfl⟩
  refine ⟨delivery, ?_, by rw [hjson]; exact hpacket⟩
  rw [createDelivery]
  refine bind_eq_ok.2 ⟨ac, signingKey_val ac, ?_⟩
  refine bind_eq_ok.2 ⟨(), orError_eq_ok.2 (paired_keyIdentity hP hacca.symm), ?_⟩
  refine bind_eq_ok.2 ⟨_, verify_consent hP network ab ba bc issued habba hab hba halive hs₁
    haddress hconsent, ?_⟩
  refine bind_eq_ok.2 ⟨s₂, orError_eq_ok.2 (suggestion_eq_some.2 ⟨rfl, hs₂⟩), ?_⟩
  refine bind_eq_ok.2 ⟨r, orError_eq_ok.2 hrequest, ?_⟩
  refine bind_eq_ok.2 ⟨_, rfl, ?_⟩
  refine bind_eq_ok.2 ⟨_, orError_eq_ok.2 hendpoint, ?_⟩
  refine bind_eq_ok.2 ⟨_, orError_eq_ok.2 (endpoint_endpointEnvelope hP network bc r haddress
    hca hac), ?_⟩
  exact hdelivery

end Exchange

/-! ## The exchange -/

/-- The run of an exchange: who signs with which seed, what is said, and when. -/
structure Exchange where
  network : Network
  sid : Fixed 32
  ab : Fixed 32
  ba : Fixed 32
  ac : Fixed 32
  ca : Fixed 32
  bc : Fixed 32
  suggestedRecipient : Bytes
  suggestedContact : Bytes
  address : Bytes
  askedAt : ℕ
  offeredAt : ℕ
  consentedAt : ℕ
  deliveredAt : ℕ

/-- All builders succeed, and the delivery verifies from then on until the request expires. -/
def Exchange.Completes (P : Packages) (x : Exchange) (validateUa : Network → Bytes → Bool) :
    Prop :=
  ∃ ask offer consent delivery : Verified, ∃ offerJson : Bytes,
    createAsk P (some x.sid) x.network (keyIdentity P x.ac) x.ca.val x.askedAt = .ok ask ∧
    createOffer P x.network ask.requestJson (keyIdentity P x.ba) x.ab.val x.suggestedRecipient
      x.offeredAt = .ok offer ∧
    offer.offerJson = some offerJson ∧
    createConsent P x.network (keyIdentity P x.ab) x.ba.val x.bc.val x.address offer.packetJson
      x.consentedAt validateUa = .ok consent ∧
    createDelivery P x.network (keyIdentity P x.ba) (keyIdentity P x.ab) (keyIdentity P x.ca)
      x.ac.val ask.requestJson offerJson consent.packetJson x.suggestedContact x.deliveredAt
      validateUa = .ok delivery ∧
    ∀ now, x.deliveredAt ≤ now → now < x.askedAt + invitationTtl →
      ∃ v, verify P .delivery x.network (keyIdentity P x.ac) (keyIdentity P x.ca)
          (some ask.requestJson) none delivery.packetJson now validateUa = .ok v ∧
        v.identity = some (keyIdentity P x.bc) ∧ v.address = some x.address ∧
        v.sequence = some 1 ∧ v.suggestion = some x.suggestedContact ∧
        v.requestHash = ask.requestHash

/-- The seeds of an exchange. -/
def Exchange.seeds (x : Exchange) : List (Fixed 32) := [x.ab, x.ba, x.ac, x.ca, x.bc]

/-- Different seeds of an exchange have different keys. -/
theorem pairwise_verifyingKey {x : Exchange} (hseeds : x.seeds.Nodup)
    (hkeys : Set.InjOn P.verifyingKey {seed | seed ∈ x.seeds}) :
    x.seeds.Pairwise fun seed seed' => P.verifyingKey seed ≠ P.verifyingKey seed' :=
  hseeds.imp_of_mem fun hmem hmem' hne heq => hne (hkeys hmem hmem' heq)

/-- An exchange between honest parties with different keys completes. -/
theorem introduction_complete (hP : P.Honest) (x : Exchange)
    (validateUa : Network → Bytes → Bool) (hseeds : x.seeds.Nodup)
    (hkeys : Set.InjOn P.verifyingKey {seed | seed ∈ x.seeds})
    (hrecipient : (suggestion (.string x.suggestedRecipient)).isSome)
    (hcontact : (suggestion (.string x.suggestedContact)).isSome)
    (hascii : isAscii x.address)
    (haddress : (validAddress x.network x.address validateUa).isSome)
    (hoffered : x.askedAt ≤ x.offeredAt) (hconsented : x.offeredAt ≤ x.consentedAt)
    (hdelivered : x.consentedAt ≤ x.deliveredAt)
    (halive : x.deliveredAt < x.askedAt + invitationTtl)
    (hmax : x.askedAt + invitationTtl ≤ maxSafeInteger) : x.Completes P validateUa := by
  have hne := pairwise_verifyingKey hseeds hkeys
  simp only [Exchange.seeds, List.pairwise_cons, List.mem_cons, List.not_mem_nil, or_false,
    forall_eq_or_imp, forall_eq] at hne
  obtain ⟨⟨habba, -, -, hab⟩, ⟨-, -, hba⟩, ⟨hacca, hac⟩, hca, -⟩ := hne
  obtain ⟨s₁, hs₁⟩ := Option.isSome_iff_exists.1 hrecipient
  obtain ⟨h₁, hs₁⟩ := suggestion_eq_some.1 hs₁
  obtain rfl := Value.string.inj h₁
  obtain ⟨s₂, hs₂⟩ := Option.isSome_iff_exists.1 hcontact
  obtain ⟨h₂, hs₂⟩ := suggestion_eq_some.1 hs₂
  obtain rfl := Value.string.inj h₂
  obtain ⟨⟨⟩, hvalid⟩ := Option.isSome_iff_exists.1 haddress
  have hrequest := requestOf_askRequest x.network x.sid x.askedAt hmax
  have hlive : ∀ now, x.askedAt ≤ now → now < x.askedAt + invitationTtl →
      Alive (askRequest x.network x.sid x.askedAt) x.network now x.askedAt invitationTtl :=
    fun now hfrom huntil => ⟨hrequest, hfrom, huntil⟩
  obtain ⟨askPacket, hask, -⟩ := createAsk_ok hP x.network x.sid x.ac x.ca x.askedAt hacca hmax
  obtain ⟨offerPacket, hoffer, hofferPacket⟩ := createOffer_ok hP x.network x.ab x.ba x.askedAt
    habba (hlive x.offeredAt hoffered (by omega)) hs₁
  obtain ⟨consentPacket, hconsent, hconsentPacket⟩ := createConsent_ok hP x.network x.ab x.ba x.bc
    x.askedAt habba hab.symm hba.symm (hlive x.consentedAt (by omega) (by omega)) hs₁
    ⟨hascii, hvalid⟩ hofferPacket
  obtain ⟨delivery, hdelivery, hdeliveryPacket⟩ := createDelivery_ok hP x.network x.ab x.ba x.ac
    x.ca x.bc x.askedAt habba hacca hab.symm hba.symm hac.symm
    hca.symm (hlive x.deliveredAt (by omega) halive) hs₁ hs₂
    ⟨hascii, hvalid⟩ hconsentPacket
  refine ⟨_, _, _, delivery, _, hask, hoffer, rfl, hconsent, hdelivery, ?_⟩
  intro now hfrom huntil
  exact ⟨_, verify_delivery hP x.network x.ac x.ca x.bc x.askedAt hacca hac.symm hca.symm
    (hlive now (by omega) huntil) hs₂ ⟨hascii, hvalid⟩ hdeliveryPacket, rfl, rfl, rfl, rfl, rfl⟩

/-- Packages whose keys are their seeds and whose signatures repeat key and message. -/
def mirrorPackages : Packages where
  fromSlice := Json.read
  sha256 bytes := ⟨(bytes.reverse ++ List.replicate 32 0).take 32, by simp⟩
  Point := Fixed 32
  decompress := some
  compress point := point
  isIdentity _ := false
  isTorsionFree _ := true
  isCanonicalScalar _ := true
  isVerifyingKey _ := true
  verifyStrict key message signature :=
    signature.val = key.val ++ (message.reverse ++ List.replicate 32 0).take 32
  verifyingKey seed := seed
  sign seed message :=
    ⟨seed.val ++ (message.reverse ++ List.replicate 32 0).take 32, by simp [seed.property]⟩

theorem honest_mirrorPackages : mirrorPackages.Honest where
  fromSlice_print h _ := Json.read_print h.textual
  profilePoint_verifyingKey _ := by simp [profilePoint, mirrorPackages, guard]
  verifySignature_sign _ _ := by simp [verifySignature, profilePoint, mirrorPackages, guard]

/-- The seed of one repeated byte. -/
def constantSeed (b : UInt8) : Fixed 32 := ⟨List.replicate 32 b, by simp⟩

def sampleExchange : Exchange where
  network := .main
  sid := constantSeed 9
  ab := constantSeed 1
  ba := constantSeed 2
  ac := constantSeed 3
  ca := constantSeed 4
  bc := constantSeed 5
  suggestedRecipient := ascii "Carol"
  suggestedContact := ascii "Bob \"B\""
  address := ascii "u1address"
  askedAt := 1_700_000_000
  offeredAt := 1_700_000_000
  consentedAt := 1_700_000_100
  deliveredAt := 1_702_591_999

theorem introduction_complete_sample :
    sampleExchange.Completes mirrorPackages fun _ _ => true :=
  introduction_complete honest_mirrorPackages sampleExchange _ (by decide)
    (fun _ _ _ _ heq => heq) (by decide) (by decide) (by decide) (by decide) (by decide)
    (by decide) (by decide) (by decide) (by decide)

end VizorWallet.Contact
