import VizorWallet.Contact.Introduction

/-!
# What the verifier of introductions accepts

Each part of a package, and each package, is accepted exactly when it is an array of the right
items.

## Main results

* `request_eq_some`, `parse_eq_some`, `offer_eq_some`, `endpoint_eq_some` — the parts.
* `verifyInner_ask`, `verifyInner_offer`, `verifyInner_consent`, `verifyInner_delivery` — the
  packages.
-/

namespace VizorWallet.Contact

open Json

variable {P : Packages} {network : Network} {now : ℕ} {value hash : Value}

theorem canonical_eq_some {input : Bytes} :
    canonical P input = some value ↔ isAscii input ∧ canonicalJson P input = some value := by
  simp [canonical, Option.bind_eq_some_iff]

theorem print_of_canonical {input : Bytes} (h : canonical P input = some value) :
    value.print = input :=
  (canonicalJson_eq_some.1 (canonical_eq_some.1 h).2).2.2

theorem Packages.Honest.canonical_print (h : P.Honest) (hplain : value.Plain)
    (hdepth : value.depth < 128) (hle : value.print.length ≤ maxInputBytes) :
    canonical P value.print = some value :=
  canonical_eq_some.2 ⟨hplain.isAscii_print, h.canonicalJson_print hplain hdepth hle⟩

theorem plain_encode (bytes : Bytes) : (Value.string (Base64Url.encode bytes)).Plain :=
  .string (Base64Url.isAscii_of_isUrlSafe fun _ hc => Base64Url.isUrlSafe_of_mem_encode hc)

theorem isAscii_keyIdentity (seed : Fixed 32) : isAscii (keyIdentity P seed) := by
  have hencode : isAscii (Base64Url.encode (P.verifyingKey seed).val) :=
    Base64Url.isAscii_of_isUrlSafe fun _ hc => Base64Url.isUrlSafe_of_mem_encode hc
  rw [keyIdentity, isAscii_append, hencode, Bool.and_true]
  decide

theorem isAscii_wireName (network : Network) : isAscii network.wireName := by
  cases network <;> decide

theorem length_eq_five {α : Type} {l : List α} :
    l.length = 5 ↔ ∃ a b c d e, l = [a, b, c, d, e] := by
  simp [List.length_eq_succ_iff, eq_comm]

theorem length_eq_six {α : Type} {l : List α} :
    l.length = 6 ↔ ∃ a b c d e f, l = [a, b, c, d, e, f] := by
  simp [List.length_eq_succ_iff, eq_comm]

/-! ## Requests -/

/-- A request of the network, issued at a time for a lifetime. -/
structure RequestOf (value : Value) (network : Network) (issued ttl : ℕ) : Prop where
  shape : ∃ (domain : Bytes) (sid : Fixed 32), lifetime domain = some ttl ∧
    value = .array [.string domain, .string network.wireName,
      .string (Base64Url.encode sid.val), .number issued, .number (issued + ttl)]
  expires_le : issued + ttl ≤ maxSafeInteger

/-- A request is accepted while it is alive. -/
theorem request_eq_some : request P value network now = some hash ↔
    ∃ issued ttl, RequestOf value network issued ttl ∧ issued ≤ now ∧ now < issued + ttl ∧
      hash = digest P value := by
  simp only [request, Option.bind_eq_bind, Option.bind_eq_some_iff, array_eq_some,
    Value.string?_eq_some, fixed_eq_some (n := 32) (by decide) (by decide), integer_eq_some,
    guard_eq_some, checkedAdd_eq_some, Option.pure_def, Option.some.injEq]
  constructor
  · rintro ⟨r, ⟨rfl, hlength⟩, s, hs, sid, rfl, issued, ⟨hissued, -⟩, expires, ⟨hexpires, hle⟩,
      domain, hdomain, ttl, httl, -, ⟨-, hnetwork, ⟨-, rfl⟩, hfrom, huntil⟩, rfl⟩
    obtain ⟨a, b, c, d, e, rfl⟩ := length_eq_five.1 hlength
    simp only [List.getElem!_cons_zero, List.getElem!_cons_succ] at hs hissued hexpires
    simp only [List.getElem!_cons_zero, List.getElem!_cons_succ] at hdomain hnetwork
    subst hs hissued hexpires hdomain hnetwork
    exact ⟨issued, ttl, ⟨⟨domain, sid, httl, rfl⟩, hle⟩, hfrom, huntil, rfl⟩
  · rintro ⟨issued, ttl, ⟨⟨domain, sid, httl, rfl⟩, hle⟩, hfrom, huntil, rfl⟩
    have hmax : maxSafeInteger < u64Size := by decide
    exact ⟨_, ⟨rfl, rfl⟩, _, rfl, sid, rfl, issued, ⟨rfl, by omega⟩, issued + ttl, ⟨rfl, hle⟩,
      domain, rfl, ttl, httl, (), ⟨by omega, rfl, ⟨by omega, rfl⟩, hfrom, huntil⟩, rfl⟩

theorem RequestOf.plain {issued ttl : ℕ} (h : RequestOf value network issued ttl) :
    value.Plain := by
  obtain ⟨⟨domain, sid, httl, rfl⟩, hle⟩ := h
  have hmax : maxSafeInteger < u64Size := by decide
  have hdomain : isAscii domain := by
    unfold lifetime at httl
    split_ifs at httl with h1 h2
    · rw [h1]
      decide
    · rw [h2]
      decide
  refine .array ?_
  simp only [List.mem_cons, List.not_mem_nil, or_false, forall_eq_or_imp, forall_eq]
  exact ⟨.string hdomain, .string (isAscii_wireName network), plain_encode _,
    .number (by omega), .number (by omega)⟩

/-! ## Envelopes -/

/-- The value is an envelope with the text of the payload, which the signer signed. -/
def Carries (P : Packages) (value payload : Value) (signer : Bytes) : Prop :=
  ∃ signature : Fixed 64,
    value = .array [.string (Base64Url.encode payload.print),
      .string (Base64Url.encode signature.val)] ∧
    decode (Base64Url.encode payload.print) = some payload.print ∧
    canonical P payload.print = some payload ∧
    ∃ key, identity P signer = some key ∧
      verifySignature P key payload.print signature = some ()

variable {signer recipient : Bytes} {payload : Value}

theorem parse_eq_some {envelope : Envelope} : Envelope.parse P value = some envelope ↔
    value = .array [.string (Base64Url.encode envelope.payload),
      .string (Base64Url.encode envelope.signature.val)] ∧
    decode (Base64Url.encode envelope.payload) = some envelope.payload ∧
    canonical P envelope.payload = some envelope.fields := by
  simp only [Envelope.parse, Option.bind_eq_bind, Option.bind_eq_some_iff, array_eq_some,
    Value.string?_eq_some, fixed_eq_some (n := 64) (by decide) (by decide), Option.pure_def,
    Option.some.injEq]
  constructor
  · rintro ⟨a, ⟨rfl, hlength⟩, s, hs, payload, hdecode, fields, hfields, t, ht, signature, rfl, rfl⟩
    obtain ⟨x, y, rfl⟩ := List.length_eq_two.1 hlength
    obtain ⟨rfl, -⟩ := decode_eq_some.1 hdecode
    simp only [List.getElem!_cons_zero, List.getElem!_cons_succ] at hs ht
    subst hs ht
    exact ⟨rfl, hdecode, hfields⟩
  · rintro ⟨rfl, hdecode, hfields⟩
    exact ⟨_, ⟨rfl, rfl⟩, _, rfl, _, hdecode, _, hfields, _, rfl, _, rfl, rfl⟩

theorem envelope_verify_eq_some {envelope : Envelope} {u : Unit} :
    envelope.verify P signer = some u ↔ ∃ key, identity P signer = some key ∧
      verifySignature P key envelope.payload envelope.signature = some () := by
  simp [Envelope.verify, Option.bind_eq_some_iff]

theorem carries_of_parse {envelope : Envelope} (hparse : Envelope.parse P value = some envelope)
    (hverify : envelope.verify P signer = some ()) : Carries P value envelope.fields signer := by
  obtain ⟨hvalue, hdecode, hfields⟩ := parse_eq_some.1 hparse
  have hprint := print_of_canonical hfields
  have hkey := envelope_verify_eq_some.1 hverify
  exact ⟨envelope.signature, by rw [hprint, hvalue], by rw [hprint, hdecode],
    by rw [hprint, hfields], by rw [hprint]; exact hkey⟩

theorem Carries.parse (h : Carries P value payload signer) :
    ∃ envelope, Envelope.parse P value = some envelope ∧ envelope.fields = payload ∧
      envelope.verify P signer = some () := by
  obtain ⟨signature, rfl, hdecode, hcanonical, hkey⟩ := h
  exact ⟨⟨payload.print, payload, signature⟩, parse_eq_some.2 ⟨rfl, hdecode, hcanonical⟩, rfl,
    envelope_verify_eq_some.2 hkey⟩

theorem Carries.plain (h : Carries P value payload signer) : value.Plain := by
  obtain ⟨signature, rfl, -⟩ := h
  refine .array ?_
  simp only [List.mem_cons, List.not_mem_nil, or_false, forall_eq_or_imp, forall_eq]
  exact ⟨plain_encode _, plain_encode _⟩

/-- A suggestion is one to twenty printable characters, with no space at either end. -/
def IsSuggestion (s : Bytes) : Prop :=
  s ≠ [] ∧ s.length ≤ 20 ∧ s.head? ≠ some 0x20 ∧ s.getLast? ≠ some 0x20 ∧
    s.all fun b => 0x20 ≤ b && b ≤ 0x7e

theorem suggestion_eq_some {s : Bytes} :
    suggestion value = some s ↔ value = .string s ∧ IsSuggestion s := by
  simp only [suggestion, Option.bind_eq_bind, Option.bind_eq_some_iff, Value.string?_eq_some,
    guard_eq_some, Option.pure_def, Option.some.injEq, IsSuggestion]
  grind

theorem IsSuggestion.isAscii {s : Bytes} (h : IsSuggestion s) : isAscii s := by
  refine isAscii_iff.2 fun b hb => ?_
  have hall := List.all_eq_true.1 h.2.2.2.2 b hb
  rw [Bool.and_eq_true, decide_eq_true_eq, decide_eq_true_eq, UInt8.le_iff_toNat_le,
    UInt8.le_iff_toNat_le] at hall
  exact UInt8.lt_iff_toNat_lt.2 (hall.2.trans_lt (by decide))

/-- The payload of an offer. -/
def offerPayload (hash : Value) (recipient s : Bytes) : Value :=
  .array [text "zcash-contact/intro-offer", hash, .string recipient, .string s]

/-- An offer is accepted when it carries the hash, the recipient and a suggestion. -/
theorem offer_eq_some {s : Bytes} : offer P value hash signer recipient = some s ↔
    Carries P value (offerPayload hash recipient s) signer ∧ IsSuggestion s := by
  simp only [offer, offerPayload, Option.bind_eq_bind, Option.bind_eq_some_iff, array_eq_some,
    guard_eq_some, suggestion_eq_some, Option.pure_def, Option.some.injEq]
  constructor
  · rintro ⟨envelope, hparse, o, ⟨hfields, hlength⟩, ⟨⟩, ⟨h0, h1, h2⟩, s, ⟨h3, hs⟩, ⟨⟩, hverify,
      rfl⟩
    obtain ⟨a, b, c, d, rfl⟩ := List.length_eq_four.1 hlength
    simp only [List.getElem!_cons_zero, List.getElem!_cons_succ] at h0 h1 h2 h3
    subst h0 h1 h2 h3
    rw [← hfields]
    exact ⟨carries_of_parse hparse hverify, hs⟩
  · rintro ⟨hcarries, hs⟩
    obtain ⟨envelope, hparse, hfields, hverify⟩ := hcarries.parse
    exact ⟨envelope, hparse, _, ⟨hfields, rfl⟩, (), ⟨rfl, rfl, rfl⟩, s, ⟨rfl, hs⟩, (), hverify, rfl⟩

variable {peer own subject address : Bytes} {validateUa : Network → Bytes → Bool}

/-- The payload of an endpoint. -/
def endpointPayload (network : Network) (hash : Value) (subject address : Bytes) : Value :=
  .array [text "zcash-contact/intro-endpoint", .string network.wireName, hash, .string subject,
    .number 1, .string address]

/-- An endpoint is accepted when it carries the hash, a fresh signer and an address. -/
theorem endpoint_eq_some :
    endpoint P value hash network peer own validateUa = some (subject, address) ↔
      Carries P value (endpointPayload network hash subject address) subject ∧
        subject ≠ peer ∧ subject ≠ own ∧
        validAddress network address validateUa = some () := by
  simp only [endpoint, Option.bind_eq_bind, Option.bind_eq_some_iff, array_eq_some,
    guard_eq_some, integer_eq_some, Value.string?_eq_some, Option.pure_def, Option.some.injEq,
    Prod.mk.injEq, endpointPayload]
  constructor
  · rintro ⟨envelope, hparse, e, ⟨hfields, hlength⟩, ⟨⟩, ⟨h0, h1, h2, ⟨h4, -⟩, hpeer, hown⟩, x, h3,
      ⟨⟩, hverify, y, h5, ⟨⟩, hvalid, rfl, rfl⟩
    obtain ⟨a, b, c, d, f, g, rfl⟩ := length_eq_six.1 hlength
    simp only [List.getElem!_cons_zero, List.getElem!_cons_succ] at h0 h1 h2 h3 h4 h5 hpeer hown
    subst h0 h1 h2 h3 h4 h5
    rw [← hfields]
    exact ⟨carries_of_parse hparse hverify, by simpa using hpeer, by simpa using hown, hvalid⟩
  · rintro ⟨hcarries, hpeer, hown, hvalid⟩
    obtain ⟨envelope, hparse, hfields, hverify⟩ := hcarries.parse
    exact ⟨envelope, hparse, _, ⟨hfields, rfl⟩, (), ⟨rfl, rfl, rfl, ⟨rfl, by decide⟩,
      by simpa using hpeer, by simpa using hown⟩, subject, rfl, (), hverify, address, rfl, (),
      hvalid, rfl, rfl⟩

/-! ## Packages -/

theorem paired_eq_some {u : Unit} : paired P peer own = some u ↔
    (∃ key, identity P peer = some key) ∧ (∃ key, identity P own = some key) ∧ peer ≠ own := by
  simp only [paired, Option.bind_eq_bind, Option.bind_eq_some_iff, guard_eq_some]
  grind

/-- The saved text is that of the request. -/
theorem matchesSaved_eq_some {saved : Option Bytes} {u : Unit} :
    matchesSaved P saved value = some u ↔
      saved = some value.print ∧ canonical P value.print = some value := by
  simp only [matchesSaved, Option.bind_eq_bind, Option.bind_eq_some_iff, guard_eq_some]
  constructor
  · rintro ⟨input, rfl, x, hcanonical, rfl⟩
    rw [print_of_canonical hcanonical]
    exact ⟨rfl, hcanonical⟩
  · rintro ⟨rfl, hcanonical⟩
    exact ⟨_, rfl, _, hcanonical, rfl⟩

/-- A live request of a package, issued at a time for a lifetime. -/
structure Alive (r : Value) (network : Network) (now issued ttl : ℕ) : Prop where
  request : RequestOf r network issued ttl
  from_le : issued ≤ now
  lt_until : now < issued + ttl

theorem request_eq_some_iff_alive : request P value network now = some hash ↔
    ∃ issued ttl, Alive value network now issued ttl ∧ hash = digest P value := by
  rw [request_eq_some]
  constructor
  · rintro ⟨issued, ttl, h, hfrom, huntil, rfl⟩
    exact ⟨issued, ttl, ⟨h, hfrom, huntil⟩, rfl⟩
  · rintro ⟨issued, ttl, ⟨h, hfrom, huntil⟩, rfl⟩
    exact ⟨issued, ttl, h, hfrom, huntil, rfl⟩

/-- The expiry field of a request. -/
theorem RequestOf.expiresAt {issued ttl expires : ℕ} (h : RequestOf value network issued ttl) :
    (∃ r, value.items? = some r ∧ integer r[4]! = some expires) ↔ expires = issued + ttl := by
  obtain ⟨⟨domain, sid, -, rfl⟩, hle⟩ := h
  simp only [Value.items?_eq_some, Value.array.injEq, exists_eq_left', integer_eq_some]
  constructor
  · rintro ⟨hexpires, -⟩
    exact (Value.number.inj hexpires).symm
  · rintro rfl
    exact ⟨rfl, hle⟩

/-- What a package with a request yields before its parts are checked. -/
def baseVerified (P : Packages) (packetJson : Bytes) (r : Value) (expiresAt : ℕ) : Verified where
  packetJson := packetJson
  requestJson := r.print
  requestHash := digestText P r
  endpointHash := none
  endorsementHash := none
  expiresAt := expiresAt
  offerJson := none
  endpointJson := none
  identity := none
  address := none
  sequence := none
  suggestion := none

variable {savedRequest savedOffer : Option Bytes} {packet : Bytes} {v : Verified}

theorem verifyInner_eq_some {role : Role} :
    verifyInner P role network peer own savedRequest savedOffer packet now validateUa = some v ↔
      paired P peer own = some () ∧ ∃ p issued ttl, canonical P packet = some (.array p) ∧
        p.length = role.package.2 ∧ p[0]! = text role.package.1 ∧
        Alive p[1]! network now issued ttl ∧
        verifyParts P role network peer own savedRequest savedOffer validateUa p
          (digest P p[1]!) (baseVerified P packet p[1]! (issued + ttl)) = some v := by
  simp only [verifyInner, Option.bind_eq_bind, Option.bind_eq_some_iff,
    array_eq_some, guard_eq_some, request_eq_some_iff_alive]
  constructor
  · rintro ⟨⟨⟩, hpaired, x, hpacket, p, ⟨rfl, hlength⟩, ⟨⟩, h0, hash, ⟨issued, ttl, halive, rfl⟩,
      requestHash, hhash, r, hr, expires, hexpires, hparts⟩
    obtain rfl := Value.string.inj (Value.string?_eq_some.1 hhash)
    obtain rfl := halive.request.expiresAt.1 ⟨r, hr, hexpires⟩
    exact ⟨hpaired, p, issued, ttl, hpacket, hlength, h0, halive, hparts⟩
  · rintro ⟨hpaired, p, issued, ttl, hpacket, hlength, h0, halive, hparts⟩
    obtain ⟨items, hitems, hexpires⟩ := halive.request.expiresAt.2 rfl
    exact ⟨(), hpaired, _, hpacket, _, ⟨rfl, hlength⟩, (), h0, _, ⟨issued, ttl, halive, rfl⟩, _,
      rfl, items, hitems, _, hexpires, hparts⟩

/-- The payload of an ask. -/
def askPayload (P : Packages) (r : Value) (recipient : Bytes) : Value :=
  .array [text "zcash-contact/intro-ask", digest P r, .string recipient]

/-- An ask is accepted when its peer asks the owner for the request. -/
theorem verifyInner_ask :
    verifyInner P .ask network peer own savedRequest savedOffer packet now validateUa = some v ↔
      paired P peer own = some () ∧ savedRequest = none ∧ savedOffer = none ∧
      ∃ r c issued ttl,
        canonical P packet = some (.array [text "zcash-contact/intro-ask-package", r, c]) ∧
        Alive r network now issued ttl ∧
        Carries P c (askPayload P r own) peer ∧
        v = baseVerified P packet r (issued + ttl) := by
  rw [verifyInner_eq_some]
  simp only [verifyParts, Role.package, Option.bind_eq_bind, Option.bind_eq_some_iff,
    array_eq_some, guard_eq_some, Option.pure_def, Option.some.injEq,
    Option.isNone_iff_eq_none]
  constructor
  · rintro ⟨hpaired, p, issued, ttl, hpacket, hlength, h0, halive, ⟨⟩, ⟨hrequest, hoffer⟩,
      envelope, hparse, f, ⟨hfields, hlen⟩, ⟨⟩, ⟨hf0, hf1, hf2⟩, ⟨⟩, hverify, rfl⟩
    obtain ⟨a, r, c, rfl⟩ := List.length_eq_three.1 hlength
    obtain ⟨f0, f1, f2, rfl⟩ := List.length_eq_three.1 hlen
    simp only [List.getElem!_cons_zero, List.getElem!_cons_succ] at *
    subst h0 hf0 hf1 hf2
    refine ⟨hpaired, hrequest, hoffer, r, c, issued, ttl, hpacket, halive, ?_, rfl⟩
    rw [askPayload, ← hfields]
    exact carries_of_parse hparse hverify
  · rintro ⟨hpaired, rfl, rfl, r, c, issued, ttl, hpacket, halive, hcarries, rfl⟩
    obtain ⟨envelope, hparse, hfields, hverify⟩ := hcarries.parse
    exact ⟨hpaired, _, issued, ttl, hpacket, rfl, rfl, halive, (), ⟨rfl, rfl⟩, envelope, hparse, _,
      ⟨hfields, rfl⟩, (), ⟨rfl, rfl, rfl⟩, (), hverify, rfl⟩

/-- An offer is accepted when its peer offers the owner an introduction. -/
theorem verifyInner_offer :
    verifyInner P .offer network peer own savedRequest savedOffer packet now validateUa = some v ↔
      paired P peer own = some () ∧ savedRequest = none ∧ savedOffer = none ∧
      ∃ r o issued ttl s,
        canonical P packet = some (.array [text "zcash-contact/intro-offer-package", r, o]) ∧
        Alive r network now issued ttl ∧
        offer P o (digest P r) peer own = some s ∧
        v = { baseVerified P packet r (issued + ttl) with
          suggestion := some s, offerJson := some o.print } := by
  rw [verifyInner_eq_some]
  simp only [verifyParts, Role.package, Option.bind_eq_bind, Option.bind_eq_some_iff,
    guard_eq_some, Option.pure_def, Option.some.injEq, Option.isNone_iff_eq_none]
  constructor
  · rintro ⟨hpaired, p, issued, ttl, hpacket, hlength, h0, halive, ⟨⟩, ⟨hrequest, hoffer⟩, s, hs,
      rfl⟩
    obtain ⟨a, r, o, rfl⟩ := List.length_eq_three.1 hlength
    simp only [List.getElem!_cons_zero, List.getElem!_cons_succ] at *
    subst h0
    exact ⟨hpaired, hrequest, hoffer, r, o, issued, ttl, s, hpacket, halive, hs, rfl⟩
  · rintro ⟨hpaired, rfl, rfl, r, o, issued, ttl, s, hpacket, halive, hs, rfl⟩
    exact ⟨hpaired, _, issued, ttl, hpacket, rfl, rfl, halive, (), ⟨rfl, rfl⟩, s, hs, rfl⟩

/-- The payload of a consent. -/
def consentPayload (P : Packages) (r o e : Value) : Value :=
  .array [text "zcash-contact/intro-consent", digest P r, digest P o, digest P e]

/-- A consent is accepted when the owner offered and its peer consents with an endpoint. -/
theorem verifyInner_consent :
    verifyInner P .consent network peer own savedRequest savedOffer packet now validateUa =
        some v ↔
      paired P peer own = some () ∧
      ∃ r e b issued ttl o s subject address,
        canonical P packet = some (.array [text "zcash-contact/intro-consent-package", r, e, b]) ∧
        Alive r network now issued ttl ∧
        matchesSaved P savedRequest r = some () ∧ matchesSaved P savedOffer o = some () ∧
        offer P o (digest P r) own peer = some s ∧
        Carries P b (consentPayload P r o e) peer ∧
        endpoint P e (digest P r) network peer own validateUa = some (subject, address) ∧
        v = { baseVerified P packet r (issued + ttl) with
          offerJson := some o.print
          identity := some subject, address := some address, sequence := some 1
          endpointJson := some e.print, endpointHash := some (digestText P e) } := by
  rw [verifyInner_eq_some]
  simp only [verifyParts, Role.package, Option.bind_eq_bind, Option.bind_eq_some_iff,
    array_eq_some, guard_eq_some, Option.pure_def, Option.some.injEq, Prod.exists]
  constructor
  · rintro ⟨hpaired, p, issued, ttl, hpacket, hlength, h0, halive, ⟨⟩, hrequest, t, ht, o, ho, s,
      hs, envelope, hparse, f, ⟨hfields, hlen⟩, ⟨⟩, ⟨hf0, hf1, hf2, hf3⟩, ⟨⟩, hverify, subject,
      address, hendpoint, rfl⟩
    obtain ⟨a, r, e, b, rfl⟩ := List.length_eq_four.1 hlength
    obtain ⟨f0, f1, f2, f3, rfl⟩ := List.length_eq_four.1 hlen
    simp only [List.getElem!_cons_zero, List.getElem!_cons_succ] at *
    subst h0 hf0 hf1 hf2 hf3
    obtain rfl := print_of_canonical ho
    refine ⟨hpaired, r, e, b, issued, ttl, o, s, subject, address, hpacket, halive, hrequest,
      matchesSaved_eq_some.2 ⟨ht, ho⟩, hs, ?_, hendpoint, rfl⟩
    rw [consentPayload, ← hfields]
    exact carries_of_parse hparse hverify
  · rintro ⟨hpaired, r, e, b, issued, ttl, o, s, subject, address, hpacket, halive, hrequest,
      hoffer, hs, hcarries, hendpoint, rfl⟩
    obtain ⟨envelope, hparse, hfields, hverify⟩ := hcarries.parse
    obtain ⟨ht, ho⟩ := matchesSaved_eq_some.1 hoffer
    exact ⟨hpaired, _, issued, ttl, hpacket, rfl, rfl, halive, (), hrequest, _, ht, o, ho, s, hs,
      envelope, hparse, _, ⟨hfields, rfl⟩, (), ⟨rfl, rfl, rfl, rfl⟩, (), hverify, subject, address,
      hendpoint, rfl⟩

/-- The payload of an endorsement. -/
def endorsementPayload (P : Packages) (network : Network) (r e : Value) (s : Bytes) : Value :=
  .array [text "zcash-contact/intro-endorsement", .string network.wireName, digest P r,
    digest P e, .string s]

/-- A delivery is accepted when its peer endorses an endpoint for the saved request. -/
theorem verifyInner_delivery :
    verifyInner P .delivery network peer own savedRequest savedOffer packet now validateUa =
        some v ↔
      paired P peer own = some () ∧ savedOffer = none ∧
      ∃ r e a issued ttl s subject address,
        canonical P packet = some (.array [text "zcash-contact/intro-delivery", r, e, a]) ∧
        Alive r network now issued ttl ∧
        matchesSaved P savedRequest r = some () ∧
        Carries P a (endorsementPayload P network r e s) peer ∧ IsSuggestion s ∧
        endpoint P e (digest P r) network peer own validateUa = some (subject, address) ∧
        v = { baseVerified P packet r (issued + ttl) with
          suggestion := some s
          endorsementHash := some (digestText P a)
          identity := some subject, address := some address, sequence := some 1
          endpointJson := some e.print, endpointHash := some (digestText P e) } := by
  rw [verifyInner_eq_some]
  simp only [verifyParts, Role.package, Option.bind_eq_bind, Option.bind_eq_some_iff,
    array_eq_some, guard_eq_some, suggestion_eq_some, Option.pure_def, Option.some.injEq,
    Option.isNone_iff_eq_none, Prod.exists]
  constructor
  · rintro ⟨hpaired, p, issued, ttl, hpacket, hlength, h0, halive, ⟨⟩, hrequest, ⟨⟩, hoffer,
      envelope, hparse, f, ⟨hfields, hlen⟩, ⟨⟩, ⟨hf0, hf1, hf2, hf3⟩, s, ⟨hf4, hs⟩, ⟨⟩, hverify,
      subject, address, hendpoint, rfl⟩
    obtain ⟨x, r, e, a, rfl⟩ := List.length_eq_four.1 hlength
    obtain ⟨f0, f1, f2, f3, f4, rfl⟩ := length_eq_five.1 hlen
    simp only [List.getElem!_cons_zero, List.getElem!_cons_succ] at *
    subst h0 hf0 hf1 hf2 hf3 hf4
    refine ⟨hpaired, hoffer, r, e, a, issued, ttl, s, subject, address, hpacket, halive, hrequest,
      ?_, hs, hendpoint, rfl⟩
    rw [endorsementPayload, ← hfields]
    exact carries_of_parse hparse hverify
  · rintro ⟨hpaired, rfl, r, e, a, issued, ttl, s, subject, address, hpacket, halive, hrequest,
      hcarries, hs, hendpoint, rfl⟩
    obtain ⟨envelope, hparse, hfields, hverify⟩ := hcarries.parse
    exact ⟨hpaired, _, issued, ttl, hpacket, rfl, rfl, halive, (), hrequest, (), rfl, envelope,
      hparse, _, ⟨hfields, rfl⟩, (), ⟨rfl, rfl, rfl, rfl⟩, s, ⟨rfl, hs⟩, (), hverify, subject,
      address, hendpoint, rfl⟩

end VizorWallet.Contact
