import VizorWallet.Contact.Completeness
import VizorWallet.Contact.Direct

/-!
# Accepted introductions were signed

Whatever the packet, an accepted delivery or consent was signed by the parties it names, for the
saved request, and no signed text serves as two kinds of message.

## Main definitions

* `SignedBy` — the holder of an identity signed a payload.
* `DeliveryMeaning`, `ConsentMeaning` — what an accepted package says.
* `AcceptedAs` — a text is accepted as the signed part of a kind of message.

## Main results

* `introduction_sound` — accepted packages mean what they say, and kinds are separate.
-/

namespace VizorWallet.Contact

open Json

variable {P : Packages} {network : Network} {now issued ttl : ℕ} {peer own packet : Bytes}
  {savedRequest savedOffer : Option Bytes} {validateUa : Network → Bytes → Bool} {v : Verified}

/-! ## Digests -/

theorem plain_digestInput {value : Value} (h : value.Plain) :
    (Value.array [text "zcash-contact/intro-digest", value]).Plain := by
  refine .array ?_
  simp only [List.mem_cons, List.not_mem_nil, or_false, forall_eq_or_imp, forall_eq]
  exact ⟨.string (by decide), h⟩

/-- Plain values with one digest are equal, unless their digests collide. -/
theorem digest_inj {Hashed : Set Bytes} (hcollision : Set.InjOn P.sha256 Hashed)
    {value value' : Value} (hplain : value.Plain) (hplain' : value'.Plain)
    (hmem : digestInput value ∈ Hashed) (hmem' : digestInput value' ∈ Hashed)
    (h : digest P value = digest P value') : value = value' := by
  have hencode : (P.sha256 (digestInput value)).val = (P.sha256 (digestInput value')).val :=
    Base64Url.encode_injective (Value.string.inj h)
  have hinput := hcollision hmem hmem' (Subtype.ext hencode)
  have hread := read_print (plain_digestInput hplain).textual
  have hread' := read_print (plain_digestInput hplain').textual
  rw [digestInput, digestInput] at hinput
  rw [hinput, hread'] at hread
  simpa using (Option.some.inj hread).symm

/-! ## Signatures -/

variable (P) in
/-- The holder of an identity signed the text of a payload. -/
def SignedBy (Signed : Fixed 32 → Bytes → Prop) (signer : Bytes) (payload : Value) : Prop :=
  ∃ key, identity P signer = some key ∧ Signed key payload.print

/-- Nobody but its holder makes a signature that a key accepts. -/
def Unforgeable (P : Packages) (Signed : Fixed 32 → Bytes → Prop) : Prop :=
  ∀ key message signature, P.verifyStrict key message signature → Signed key message

variable {Signed : Fixed 32 → Bytes → Prop} {value payload : Value} {signer : Bytes}

theorem Carries.signedBy (h : Carries P value payload signer) (hsigned : Unforgeable P Signed) :
    SignedBy P Signed signer payload := by
  obtain ⟨signature, -, -, -, key, hkey, hverify⟩ := h
  exact ⟨key, hkey, hsigned _ _ _ (verifyStrict_of_verifySignature hverify)⟩

/-! ## Accepted packages -/

/-- The peer endorsed, for the saved request, a fresh endpoint that its subject signed. -/
structure DeliveryMeaning (P : Packages) (Signed : Fixed 32 → Bytes → Prop) (Hashed : Set Bytes)
    (network : Network) (peer own : Bytes) (savedRequest : Option Bytes) (now : ℕ)
    (v : Verified) (r e : Value) (subject address suggested : Bytes) (issued ttl : ℕ) :
    Prop where
  request_eq : savedRequest = some r.print
  endpointJson_eq : v.endpointJson = some e.print
  identity_eq : v.identity = some subject
  address_eq : v.address = some address
  suggestion_eq : v.suggestion = some suggested
  endorsed : SignedBy P Signed peer (endorsementPayload P network r e suggested)
  endpoint : Carries P e (endpointPayload network (digest P r) subject address) subject
  self_signed : SignedBy P Signed subject
    (endpointPayload network (digest P r) subject address)
  ne_peer : subject ≠ peer
  ne_own : subject ≠ own
  alive : Alive r network now issued ttl
  /-- The endorsement fixes the request and the endpoint. -/
  binding : ∀ r' e' : Value, r'.Plain → e'.Plain →
    {digestInput r, digestInput e, digestInput r', digestInput e'} ⊆ Hashed →
    endorsementPayload P network r' e' suggested = endorsementPayload P network r e suggested →
    r' = r ∧ e' = e

/-- The owner offered, for the saved request, and the peer consented with a fresh endpoint. -/
structure ConsentMeaning (P : Packages) (Signed : Fixed 32 → Bytes → Prop) (Hashed : Set Bytes)
    (network : Network) (peer own : Bytes) (savedRequest savedOffer : Option Bytes) (now : ℕ)
    (v : Verified) (r o e : Value) (subject address suggested : Bytes) (issued ttl : ℕ) :
    Prop where
  request_eq : savedRequest = some r.print
  offer_eq : savedOffer = some o.print
  offerJson_eq : v.offerJson = some o.print
  endpointJson_eq : v.endpointJson = some e.print
  identity_eq : v.identity = some subject
  address_eq : v.address = some address
  /-- The saved offer carries the offer to the peer that the owner signed. -/
  offered : Carries P o (offerPayload (digest P r) peer suggested) own
  owner_signed : SignedBy P Signed own (offerPayload (digest P r) peer suggested)
  consented : SignedBy P Signed peer (consentPayload P r o e)
  endpoint : Carries P e (endpointPayload network (digest P r) subject address) subject
  self_signed : SignedBy P Signed subject
    (endpointPayload network (digest P r) subject address)
  ne_peer : subject ≠ peer
  ne_own : subject ≠ own
  alive : Alive r network now issued ttl
  /-- The consent fixes the request, the offer and the endpoint. -/
  binding : ∀ r' o' e' : Value, r'.Plain → o'.Plain → e'.Plain →
    {digestInput r, digestInput o, digestInput e, digestInput r', digestInput o',
      digestInput e'} ⊆ Hashed →
    consentPayload P r' o' e' = consentPayload P r o e → r' = r ∧ o' = o ∧ e' = e

variable {Hashed : Set Bytes}

theorem deliveryMeaning (hsigned : Unforgeable P Signed)
    (hcollision : Set.InjOn P.sha256 Hashed)
    (h : verify P .delivery network peer own savedRequest savedOffer packet now validateUa =
      .ok v) :
    ∃ r e subject address suggested issued ttl, DeliveryMeaning P Signed Hashed network peer own
      savedRequest now v r e subject address suggested issued ttl := by
  obtain ⟨-, -, r, e, a, issued, ttl, s, subject, address, -, halive, hrequest, hcarries, -,
    hendpoint, rfl⟩ := verifyInner_delivery.1 (orError_eq_ok.1 h)
  obtain ⟨hsubject, hpeer, hown, -⟩ := endpoint_eq_some.1 hendpoint
  refine ⟨r, e, subject, address, s, issued, ttl, (matchesSaved_eq_some.1 hrequest).1, rfl, rfl,
    rfl, rfl, hcarries.signedBy hsigned, hsubject, hsubject.signedBy hsigned, hpeer, hown, halive,
    ?_⟩
  intro r' e' hr' he' hhashed heq
  simp only [Set.insert_subset_iff, Set.singleton_subset_iff] at hhashed
  obtain ⟨hr, he, hmem, hmem'⟩ := hhashed
  simp only [endorsementPayload, Value.array.injEq, List.cons.injEq, true_and, and_true] at heq
  exact ⟨digest_inj hcollision hr' halive.request.plain hmem hr heq.1,
    digest_inj hcollision he' hsubject.plain hmem' he heq.2⟩

theorem consentMeaning (hsigned : Unforgeable P Signed)
    (hcollision : Set.InjOn P.sha256 Hashed)
    (h : verify P .consent network peer own savedRequest savedOffer packet now validateUa =
      .ok v) :
    ∃ r o e subject address suggested issued ttl, ConsentMeaning P Signed Hashed network peer own
      savedRequest savedOffer now v r o e subject address suggested issued ttl := by
  obtain ⟨-, r, e, b, issued, ttl, o, s, subject, address, -, halive, hrequest, hsaved, hoffer,
    hcarries, hendpoint, rfl⟩ := verifyInner_consent.1 (orError_eq_ok.1 h)
  obtain ⟨hsubject, hpeer, hown, -⟩ := endpoint_eq_some.1 hendpoint
  obtain ⟨hoffered, -⟩ := offer_eq_some.1 hoffer
  refine ⟨r, o, e, subject, address, s, issued, ttl, (matchesSaved_eq_some.1 hrequest).1,
    (matchesSaved_eq_some.1 hsaved).1, rfl, rfl, rfl, rfl, hoffered, hoffered.signedBy hsigned,
    hcarries.signedBy hsigned, hsubject, hsubject.signedBy hsigned, hpeer, hown, halive, ?_⟩
  intro r' o' e' hr' ho' he' hhashed heq
  simp only [Set.insert_subset_iff, Set.singleton_subset_iff] at hhashed
  obtain ⟨hr, ho, he, hmem, hmem', hmem''⟩ := hhashed
  simp only [consentPayload, Value.array.injEq, List.cons.injEq, true_and, and_true] at heq
  exact ⟨digest_inj hcollision hr' halive.request.plain hmem hr heq.1,
    digest_inj hcollision ho' hoffered.plain hmem' ho heq.2.1,
    digest_inj hcollision he' hsubject.plain hmem'' he heq.2.2⟩

/-! ## Kinds of messages -/

/-- The signed messages of both exchanges. -/
inductive MessageKind where
  | directEndpoint
  | ask
  | offer
  | endpoint
  | consent
  | endorsement
  deriving DecidableEq

/-- The first item of a signed message. -/
def MessageKind.domain : MessageKind → String
  | directEndpoint => endpointDomain
  | ask => "zcash-contact/intro-ask"
  | offer => "zcash-contact/intro-offer"
  | endpoint => "zcash-contact/intro-endpoint"
  | consent => "zcash-contact/intro-consent"
  | endorsement => "zcash-contact/intro-endorsement"

/-- The signed parts that the verifier of a package reads. -/
def signedParts (role : Role) (p : List Value) (savedOffer : Option Value) :
    List (MessageKind × Option Value) :=
  match role with
  | .ask => [(.ask, p[2]!)]
  | .offer => [(.offer, p[2]!)]
  | .consent => [(.offer, savedOffer), (.endpoint, p[2]!), (.consent, p[3]!)]
  | .delivery => [(.endpoint, p[2]!), (.endorsement, p[3]!)]

variable (P) in
/-- A verifier accepts the text as the signed part of a message of this kind. -/
inductive AcceptedAs : MessageKind → Bytes → Prop
  | direct {network : Network} {requestJson exchangeJson payload : Bytes} {now : ℕ}
      {validateUa : Network → Bytes → Bool} {result : Endpoint} {domain signature last : Value}
      (hverify : verifyEndpoint P network requestJson exchangeJson now validateUa = some result)
      (hpart : canonicalJson P exchangeJson = some (.array [domain,
        .array [.string (Base64Url.encode payload), signature], last])) :
      AcceptedAs .directEndpoint payload
  | introduction {kind : MessageKind} {role : Role} {network : Network}
      {peer own packet payload : Bytes} {savedRequest savedOffer : Option Bytes} {now : ℕ}
      {validateUa : Network → Bytes → Bool} {v : Verified} {p : List Value} {signature : Value}
      (hverify : verify P role network peer own savedRequest savedOffer packet now validateUa =
        .ok v)
      (hpacket : canonical P packet = some (.array p))
      (hpart : (kind, some (.array [.string (Base64Url.encode payload), signature])) ∈
        signedParts role p (savedOffer.bind (canonical P))) :
      AcceptedAs kind payload

/-- An envelope that carries a payload of this kind. -/
theorem fields_of_carries {bytes : Bytes} {signature : Value} {domain : String}
    {rest : List Value}
    (h : Carries P value (.array (text domain :: rest)) signer)
    (hvalue : value = .array [.string (Base64Url.encode bytes), signature]) :
    canonicalJson P bytes = some (.array (text domain :: rest)) := by
  obtain ⟨_, rfl, -, hcanonical, -⟩ := h
  simp only [Value.array.injEq, List.cons.injEq, Value.string.injEq] at hvalue
  obtain rfl := Base64Url.encode_injective hvalue.1
  exact (canonical_eq_some.1 hcanonical).2

/-- An accepted text starts with the domain of its kind. -/
theorem AcceptedAs.fields {kind : MessageKind} {bytes : Bytes} (h : AcceptedAs P kind bytes) :
    ∃ rest, canonicalJson P bytes = some (.array (text kind.domain :: rest)) := by
  cases h with
  | direct hverify hpart =>
    obtain ⟨payload, _, rest, hexchange, hpayload⟩ := verifyEndpoint_payload hverify
    rw [hexchange] at hpart
    simp only [Option.some.injEq, Value.array.injEq, List.cons.injEq, Value.string.injEq] at hpart
    obtain rfl := Base64Url.encode_injective hpart.2.1.1
    exact ⟨rest, hpayload⟩
  | @introduction _ role _ _ _ _ _ _ savedOffer _ _ _ _ _ hverify hpacket hpart =>
    have hverify' := orError_eq_ok.1 hverify
    cases role with
    | ask =>
      obtain ⟨-, -, -, r, c, -, -, hp, -, hcarries, -⟩ := verifyInner_ask.1 hverify'
      obtain rfl := Value.array.inj (Option.some.inj (hpacket.symm.trans hp))
      simp only [signedParts, List.mem_singleton, Prod.mk.injEq, Option.some.injEq] at hpart
      obtain ⟨rfl, hpart⟩ := hpart
      exact ⟨_, fields_of_carries hcarries hpart.symm⟩
    | offer =>
      obtain ⟨-, -, -, r, o, -, -, s, hp, -, hoffer, -⟩ := verifyInner_offer.1 hverify'
      obtain rfl := Value.array.inj (Option.some.inj (hpacket.symm.trans hp))
      simp only [signedParts, List.mem_singleton, Prod.mk.injEq, Option.some.injEq] at hpart
      obtain ⟨rfl, hpart⟩ := hpart
      exact ⟨_, fields_of_carries (offer_eq_some.1 hoffer).1 hpart.symm⟩
    | consent =>
      obtain ⟨-, r, e, b, -, -, o, s, subject, address, hp, -, -, hsaved, hoffer, hcarries,
        hendpoint, -⟩ := verifyInner_consent.1 hverify'
      obtain rfl := Value.array.inj (Option.some.inj (hpacket.symm.trans hp))
      obtain ⟨rfl, ho⟩ := matchesSaved_eq_some.1 hsaved
      simp only [signedParts, List.mem_cons, List.not_mem_nil, or_false, Prod.mk.injEq,
        Option.bind_some, ho, Option.some.injEq] at hpart
      obtain ⟨rfl, hpart⟩ | ⟨rfl, hpart⟩ | ⟨rfl, hpart⟩ := hpart
      · exact ⟨_, fields_of_carries (offer_eq_some.1 hoffer).1 hpart.symm⟩
      · exact ⟨_, fields_of_carries (endpoint_eq_some.1 hendpoint).1 hpart.symm⟩
      · exact ⟨_, fields_of_carries hcarries hpart.symm⟩
    | delivery =>
      obtain ⟨-, -, r, e, a, -, -, s, subject, address, hp, -, -, hcarries, -, hendpoint, -⟩ :=
        verifyInner_delivery.1 hverify'
      obtain rfl := Value.array.inj (Option.some.inj (hpacket.symm.trans hp))
      simp only [signedParts, List.mem_cons, List.not_mem_nil, or_false, Prod.mk.injEq,
        Option.some.injEq] at hpart
      obtain ⟨rfl, hpart⟩ | ⟨rfl, hpart⟩ := hpart
      · exact ⟨_, fields_of_carries (endpoint_eq_some.1 hendpoint).1 hpart.symm⟩
      · exact ⟨_, fields_of_carries hcarries hpart.symm⟩

/-- Kinds have different domains. -/
theorem domain_injective : ∀ kind kind' : MessageKind,
    ascii kind.domain = ascii kind'.domain → kind = kind' := by
  intro kind kind'
  cases kind <;> cases kind' <;> decide

theorem AcceptedAs.kind_unique {kind kind' : MessageKind} {bytes : Bytes}
    (h : AcceptedAs P kind bytes) (h' : AcceptedAs P kind' bytes) : kind = kind' := by
  obtain ⟨rest, hfields⟩ := h.fields
  obtain ⟨rest', hfields'⟩ := h'.fields
  rw [hfields] at hfields'
  simp only [Option.some.injEq, Value.array.injEq, List.cons.injEq, text,
    Value.string.injEq] at hfields'
  exact domain_injective kind kind' hfields'.1

/-- Accepted deliveries and consents mean what they say, and kinds of messages are separate. -/
theorem introduction_sound (hsigned : Unforgeable P Signed)
    (hcollision : Set.InjOn P.sha256 Hashed) :
    (∀ (network : Network) (peer own packet : Bytes) (savedRequest savedOffer : Option Bytes)
      (now : ℕ) (validateUa : Network → Bytes → Bool) (v : Verified),
      verify P .delivery network peer own savedRequest savedOffer packet now validateUa = .ok v →
      ∃ r e subject address suggested issued ttl, DeliveryMeaning P Signed Hashed network peer own
        savedRequest now v r e subject address suggested issued ttl) ∧
    (∀ (network : Network) (peer own packet : Bytes) (savedRequest savedOffer : Option Bytes)
      (now : ℕ) (validateUa : Network → Bytes → Bool) (v : Verified),
      verify P .consent network peer own savedRequest savedOffer packet now validateUa = .ok v →
      ∃ r o e subject address suggested issued ttl, ConsentMeaning P Signed Hashed network peer own
        savedRequest savedOffer now v r o e subject address suggested issued ttl) ∧
    ∀ (bytes : Bytes) (kind kind' : MessageKind),
      AcceptedAs P kind bytes → AcceptedAs P kind' bytes → kind = kind' :=
  ⟨fun _ _ _ _ _ _ _ _ _ h => deliveryMeaning hsigned hcollision h,
    fun _ _ _ _ _ _ _ _ _ h => consentMeaning hsigned hcollision h,
    fun _ _ _ h h' => h.kind_unique h'⟩

/-- The request and the endpoint of the sample exchange. -/
def sampleRequest : Value := askRequest .main (constantSeed 9) 1_700_000_000

def sampleEndpoint : Value :=
  endpointEnvelope mirrorPackages .main sampleRequest (constantSeed 5) (ascii "u1address")

theorem introduction_sound_sample :
    ∃ v r e subject address suggested issued ttl,
      verify mirrorPackages .delivery .main (keyIdentity mirrorPackages (constantSeed 3))
        (keyIdentity mirrorPackages (constantSeed 4)) (some sampleRequest.print) none
        (deliveryPackage mirrorPackages .main sampleRequest (constantSeed 5) (constantSeed 3)
          (ascii "u1address") (ascii "Bob")).print 1_700_000_000 (fun _ _ => true) = .ok v ∧
      DeliveryMeaning mirrorPackages
        (fun key message => ∃ signature, mirrorPackages.verifyStrict key message signature)
        {digestInput sampleRequest, digestInput sampleEndpoint} .main
        (keyIdentity mirrorPackages (constantSeed 3)) (keyIdentity mirrorPackages (constantSeed 4))
        (some sampleRequest.print) 1_700_000_000 v r e subject address suggested issued ttl := by
  have hrequest : RequestOf sampleRequest .main 1_700_000_000 invitationTtl :=
    requestOf_askRequest .main _ _ (by decide)
  have hsuggestion : IsSuggestion (ascii "Bob") := by
    unfold IsSuggestion
    decide
  have haddress : IsAddress .main (ascii "u1address") fun _ _ => true := ⟨by decide, by decide⟩
  have hverify := verify_delivery honest_mirrorPackages .main (constantSeed 3) (constantSeed 4)
    (constantSeed 5) 1_700_000_000 (by decide) (by decide) (by decide)
    ⟨hrequest, le_rfl, by decide⟩ hsuggestion haddress
    (canonical_deliveryPackage honest_mirrorPackages .main (constantSeed 3) (constantSeed 5)
      1_700_000_000 hrequest hsuggestion haddress)
  have hcollision : Set.InjOn mirrorPackages.sha256
      {digestInput sampleRequest, digestInput sampleEndpoint} := by
    have hne : mirrorPackages.sha256 (digestInput sampleRequest) ≠
        mirrorPackages.sha256 (digestInput sampleEndpoint) := by decide +kernel
    rintro x (rfl | rfl) y (rfl | rfl) heq
    · rfl
    · exact absurd heq hne
    · exact absurd heq.symm hne
    · rfl
  have hsigned : Unforgeable mirrorPackages
      fun key message => ∃ signature, mirrorPackages.verifyStrict key message signature :=
    fun _ _ signature h => ⟨signature, h⟩
  obtain ⟨r, e, subject, address, suggested, issued, ttl, hmeaning⟩ :=
    (introduction_sound hsigned hcollision).1 _ _ _ _ _ _ _ _ _ hverify
  exact ⟨_, r, e, subject, address, suggested, issued, ttl, hverify, hmeaning⟩

end VizorWallet.Contact
