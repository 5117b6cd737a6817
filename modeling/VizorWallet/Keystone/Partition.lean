import VizorWallet.Keystone.Rounds
import Mathlib.Algebra.Group.Action.Defs
import Mathlib.Algebra.Order.BigOperators.Group.List

/-!
# The rounds are accepted, and as few as there can be

The sizes of the rounds are measured under a placeholder for the identifier; the encoder measures
each round again under its own identifier.

## Main results

* `RoundFits.of_fewer` — fewer messages than fit do so as well.
* `countRounds_spec` — the loop ends, and its rounds are cut greedily.
* `encoderAccepts_of_fitsRound` — the encoder accepts a round that fits.
* `rounds_accepted_and_fewest` — the rounds are accepted, and no other cut has fewer of them.
-/

namespace VizorWallet.Keystone

/-- Requests and their envelopes are no longer for fewer transactions. -/
def BatchCodec.Grows {Pczt : Type} (codec : BatchCodec Pczt)
    (fewer : List Pczt → List Pczt → Prop) : Prop :=
  ∀ part pczts request request', fewer part pczts → codec.serialize part = .ok request →
    codec.serialize pczts = .ok request' → request.length ≤ request'.length ∧
      ∀ requestId cbor cbor', codec.envelope requestId request = .ok cbor →
        codec.envelope requestId request' = .ok cbor' → cbor.length ≤ cbor'.length

/-- The formats write every request, and not less when a transaction is appended or the identifier
is longer. -/
structure BatchCodec.Regular {Pczt : Type} (codec : BatchCodec Pczt) : Prop where
  serialize_ok : ∀ pczts, ∃ request, codec.serialize pczts = .ok request
  envelope_ok : ∀ requestId request, ∃ cbor, codec.envelope requestId request = .ok cbor
  appended : codec.Grows (· <+: ·)
  envelope_length : ∀ {requestId requestId' request cbor cbor'},
    List.length requestId ≤ List.length requestId' → codec.envelope requestId request = .ok cbor →
      codec.envelope requestId' request = .ok cbor' → cbor.length ≤ cbor'.length

section Codec

variable {Pczt : Type} (codec : BatchCodec Pczt)

/-- The size of these messages is within the limits. -/
def RoundFits (requestIdLen : ℕ) (messages : List (PreparedZcashBatchMessage Pczt)) : Prop :=
  ∃ size, zcashSignBatchRoundSize codec messages requestIdLen = .ok size ∧
    size.fits requestIdLen

/-- These messages fit into one round. -/
def FitsRound (requestIdLen roundLimit : ℕ) (messages : List ZcashBatchMessageInput) : Prop :=
  messages.length ≤ roundLimit ∧
    ∃ prepared, messages.mapM (prepareMessage codec) = .ok prepared ∧
      RoundFits codec requestIdLen prepared

/-- The message can be sent, and the signer can read it. -/
def ZcashBatchMessageInput.Valid (message : ZcashBatchMessageInput) : Prop :=
  message.id ≠ "" ∧ message.pcztBytes ≠ [] ∧
    ∃ prepared, prepareMessage codec message = .ok prepared

end Codec

/-! ## Sizes -/

theorem addUsize_eq_ok {a b c : ℕ} {error : String} :
    addUsize a b error = .ok c ↔ a + b < 2 ^ 64 ∧ a + b = c := by
  rw [addUsize, orError_eq_ok, checkedUsize_eq_some]

theorem foldlM_addUsize_eq_ok {error : String} {l : List ℕ} {start total : ℕ}
    (hstart : start < 2 ^ 64) :
    l.foldlM (addUsize · · error) start = .ok total ↔
      start + l.sum < 2 ^ 64 ∧ start + l.sum = total := by
  induction l generalizing start with
  | nil =>
    rw [List.foldlM_nil, pure_eq_ok, List.sum_nil, Nat.add_zero]
    exact ⟨fun h => ⟨hstart, h⟩, And.right⟩
  | cons a l ih =>
    rw [List.foldlM_cons, bind_eq_ok, List.sum_cons]
    constructor
    · rintro ⟨sum, hsum, hrest⟩
      obtain ⟨hlt, rfl⟩ := addUsize_eq_ok.1 hsum
      rw [ih hlt] at hrest
      omega
    · rintro ⟨hlt, htotal⟩
      refine ⟨start + a, addUsize_eq_ok.2 ⟨by omega, rfl⟩, (ih (by omega)).2 ?_⟩
      omega

theorem saturatingAdd_le {a b limit : ℕ} (hlimit : limit < 2 ^ 64 - 1) :
    saturatingAdd a b ≤ limit ↔ a + b ≤ limit := by
  rw [saturatingAdd]
  omega

variable {Pczt : Type} {codec : BatchCodec Pczt} {requestIdLen roundLimit : ℕ}

theorem zcashSignBatchRoundSize_eq_ok {messages : List (PreparedZcashBatchMessage Pczt)}
    {size : ZcashSignBatchRoundSize} :
    zcashSignBatchRoundSize codec messages requestIdLen = .ok size ↔
      (messages.map (·.compactPayloadLen)).sum < 2 ^ 64 ∧
      (messages.map (·.expectedSignatureCount)).sum < 2 ^ 64 ∧
      ∃ request cbor resolved,
        codec.serialize (messages.map (·.compactPczt)) = .ok request ∧
        codec.envelope (List.replicate requestIdLen 0x72) request = .ok cbor ∧
        codec.serialize (messages.map (·.resolvedPczt)) = .ok resolved ∧
        size = { compactPayloadBytes := (messages.map (·.compactPayloadLen)).sum
                 compactRequestBytes := request.length
                 compactCborBytes := cbor.length
                 resolvedRequestBytes := resolved.length
                 expectedSignatureCount := (messages.map (·.expectedSignatureCount)).sum } := by
  simp only [zcashSignBatchRoundSize, bind_eq_ok, mapError_eq_ok, pure_eq_ok,
    foldlM_addUsize_eq_ok (show 0 < 2 ^ 64 by decide), Nat.zero_add]
  constructor
  · rintro ⟨payload, ⟨hpayload, rfl⟩, count, ⟨hcount, rfl⟩, request, hrequest, cbor, hcbor,
      resolved, hresolved, rfl⟩
    exact ⟨hpayload, hcount, request, cbor, resolved, hrequest, hcbor, hresolved, rfl⟩
  · rintro ⟨hpayload, hcount, request, cbor, resolved, hrequest, hcbor, hresolved, rfl⟩
    exact ⟨_, ⟨hpayload, rfl⟩, _, ⟨hcount, rfl⟩, request, hrequest, cbor, hcbor, resolved,
      hresolved, rfl⟩

/-- A size that fits, in terms of what is written. -/
theorem roundFits_iff {messages : List (PreparedZcashBatchMessage Pczt)} :
    RoundFits codec requestIdLen messages ↔
      (messages.map (·.compactPayloadLen)).sum ≤ zcashSignBatchMaxTotalBytes ∧
      (messages.map (·.expectedSignatureCount)).sum ≤ zcashSignBatchMaxSignatures ∧
      ∃ request cbor resolved,
        codec.serialize (messages.map (·.compactPczt)) = .ok request ∧
        codec.envelope (List.replicate requestIdLen 0x72) request = .ok cbor ∧
        codec.serialize (messages.map (·.resolvedPczt)) = .ok resolved ∧
        requestIdLen + request.length ≤ zcashSignBatchMaxTotalBytes ∧
        cbor.length ≤ zcashSignBatchMaxCompactCborBytes ∧
        requestIdLen + resolved.length ≤ zcashSignBatchMaxResolvedTotalBytes := by
  have htotal : zcashSignBatchMaxTotalBytes < 2 ^ 64 - 1 := by decide
  have hresolvedTotal : zcashSignBatchMaxResolvedTotalBytes < 2 ^ 64 - 1 := by decide
  have hsignatures : zcashSignBatchMaxSignatures < 2 ^ 64 := by decide
  simp only [RoundFits, zcashSignBatchRoundSize_eq_ok, ZcashSignBatchRoundSize.fits,
    decide_eq_true_eq]
  constructor
  · rintro ⟨size, ⟨-, -, request, cbor, resolved, hrequest, hcbor, hresolved, rfl⟩, hpayload,
      htotalBytes, hcborBytes, hresolvedBytes, hcount⟩
    exact ⟨hpayload, hcount, request, cbor, resolved, hrequest, hcbor, hresolved,
      (saturatingAdd_le htotal).1 htotalBytes, hcborBytes,
      (saturatingAdd_le hresolvedTotal).1 hresolvedBytes⟩
  · rintro ⟨hpayload, hcount, request, cbor, resolved, hrequest, hcbor, hresolved, htotalBytes,
      hcborBytes, hresolvedBytes⟩
    refine ⟨_, ⟨by omega, by omega, request, cbor, resolved, hrequest, hcbor, hresolved, rfl⟩,
      hpayload, (saturatingAdd_le htotal).2 htotalBytes, hcborBytes,
      (saturatingAdd_le hresolvedTotal).2 hresolvedBytes, hcount⟩

/-- Fewer messages than fit do so as well. -/
theorem RoundFits.of_fewer (hcodec : codec.Regular) {fewer : List Pczt → List Pczt → Prop}
    (hgrows : codec.Grows fewer) {part messages : List (PreparedZcashBatchMessage Pczt)}
    (hpart : part.Sublist messages)
    (hcompact : fewer (part.map (·.compactPczt)) (messages.map (·.compactPczt)))
    (hresolve : fewer (part.map (·.resolvedPczt)) (messages.map (·.resolvedPczt)))
    (h : RoundFits codec requestIdLen messages) : RoundFits codec requestIdLen part := by
  obtain ⟨hpayload, hcount, request, cbor, resolved, hrequest, hcbor, hresolved, htotalBytes,
    hcborBytes, hresolvedBytes⟩ := roundFits_iff.1 h
  obtain ⟨request', hrequest'⟩ := hcodec.serialize_ok (part.map (·.compactPczt))
  obtain ⟨cbor', hcbor'⟩ := hcodec.envelope_ok (List.replicate requestIdLen 0x72) request'
  obtain ⟨resolved', hresolved'⟩ := hcodec.serialize_ok (part.map (·.resolvedPczt))
  obtain ⟨hrequestLen, henvelope⟩ := hgrows _ _ _ _ hcompact hrequest' hrequest
  have hcborLen := henvelope _ _ _ hcbor' hcbor
  have hresolvedLen := (hgrows _ _ _ _ hresolve hresolved' hresolved).1
  have hpayloadLe := (hpart.map (·.compactPayloadLen)).sum_le_sum fun _ _ => Nat.zero_le _
  have hcountLe := (hpart.map (·.expectedSignatureCount)).sum_le_sum fun _ _ => Nat.zero_le _
  exact roundFits_iff.2 ⟨by omega, by omega, request', cbor', resolved', hrequest', hcbor',
    hresolved', by omega, by omega, by omega⟩

theorem RoundFits.of_prefix (hcodec : codec.Regular)
    {part messages : List (PreparedZcashBatchMessage Pczt)} (hpart : part <+: messages)
    (h : RoundFits codec requestIdLen messages) : RoundFits codec requestIdLen part :=
  h.of_fewer hcodec hcodec.appended hpart.sublist (hpart.map _) (hpart.map _)

theorem RoundFits.of_suffix (hcodec : codec.Regular) (hprepended : codec.Grows (· <:+ ·))
    {part messages : List (PreparedZcashBatchMessage Pczt)} (hpart : part <:+ messages)
    (h : RoundFits codec requestIdLen messages) : RoundFits codec requestIdLen part :=
  h.of_fewer hcodec hprepended hpart.sublist (hpart.map _) (hpart.map _)

theorem sum_map_le_of_length {messages : List (PreparedZcashBatchMessage Pczt)}
    {f : PreparedZcashBatchMessage Pczt → ℕ} {bound limit : ℕ} (hlength : messages.length ≤ limit)
    (h : ∀ message ∈ messages, f message ≤ bound) : (messages.map f).sum ≤ limit * bound := by
  have hsum := List.sum_le_card_nsmul (messages.map f) bound fun value hvalue => by
    obtain ⟨message, hmessage, rfl⟩ := List.mem_map.1 hvalue
    exact h message hmessage
  rw [List.length_map, smul_eq_mul] at hsum
  exact hsum.trans (Nat.mul_le_mul_right bound hlength)

/-- When each message fits alone, the size of as many as a round takes is found. -/
theorem exists_size_of_fit (hcodec : codec.Regular)
    {messages : List (PreparedZcashBatchMessage Pczt)}
    (hlength : messages.length ≤ zcashSignBatchMaxMessages)
    (hfit : ∀ message ∈ messages, RoundFits codec requestIdLen [message]) :
    ∃ size, zcashSignBatchRoundSize codec messages requestIdLen = .ok size := by
  have hpayload := sum_map_le_of_length hlength fun message hmessage => by
    simpa using (roundFits_iff.1 (hfit message hmessage)).1
  have hcount := sum_map_le_of_length hlength fun message hmessage => by
    simpa using (roundFits_iff.1 (hfit message hmessage)).2.1
  obtain ⟨request, hrequest⟩ := hcodec.serialize_ok (messages.map (·.compactPczt))
  obtain ⟨cbor, hcbor⟩ := hcodec.envelope_ok (List.replicate requestIdLen 0x72) request
  obtain ⟨resolved, hresolved⟩ := hcodec.serialize_ok (messages.map (·.resolvedPczt))
  exact ⟨_, zcashSignBatchRoundSize_eq_ok.2 ⟨hpayload.trans_lt (by decide),
    hcount.trans_lt (by decide), request, cbor, resolved, hrequest, hcbor, hresolved, rfl⟩⟩

/-! ## Prepared messages -/

theorem checkMessage_eq_ok {ids : List String} {payloads : List Bytes}
    {message : ZcashBatchMessageInput} {u : Unit} :
    checkMessage ids payloads message = .ok u ↔
      message.id ≠ "" ∧ message.id ∉ ids ∧ message.pcztBytes ≠ [] ∧
        message.pcztBytes ∉ payloads := by
  simp [checkMessage]

theorem prepareMessage_eq_ok {message : ZcashBatchMessageInput}
    {prepared : PreparedZcashBatchMessage Pczt} :
    prepareMessage codec message = .ok prepared ↔
      codec.parse message.pcztBytes = .ok prepared.compactPczt ∧
      codec.resolveFields prepared.compactPczt = .ok prepared.resolvedPczt ∧
      prepared.compactPayloadLen = message.pcztBytes.length ∧
      prepared.expectedSignatureCount = message.expectedSignatureCount.toNat := by
  simp only [prepareMessage, parseMessage, bind_eq_ok, mapError_eq_ok, pure_eq_ok]
  constructor
  · rintro ⟨compact, hcompact, resolved, hresolved, rfl⟩
    exact ⟨hcompact, hresolved, rfl, rfl⟩
  · obtain ⟨compact, resolved, payloadLen, count⟩ := prepared
    rintro ⟨hcompact, hresolved, rfl, rfl⟩
    exact ⟨compact, hcompact, resolved, hresolved, rfl⟩

/-- Distinct messages are prepared one by one. -/
theorem prepareFrom_eq_ok {ids : List String} {payloads : List Bytes}
    {messages : List ZcashBatchMessageInput} {prepared : List (PreparedZcashBatchMessage Pczt)}
    (hids : (messages.map (·.id) ++ ids).Nodup)
    (hpayloads : (messages.map (·.pcztBytes) ++ payloads).Nodup) :
    prepareFrom codec ids payloads messages = .ok prepared ↔
      (∀ message ∈ messages, message.id ≠ "" ∧ message.pcztBytes ≠ []) ∧
        messages.mapM (prepareMessage codec) = .ok prepared := by
  induction messages generalizing ids payloads prepared with
  | nil => simp [prepareFrom, pure, Except.pure]
  | cons message rest ih =>
    have hids' := List.nodup_middle.2 hids
    have hpayloads' := List.nodup_middle.2 hpayloads
    have hid : message.id ∉ ids := fun hmem =>
      (List.nodup_cons.1 hids).1 (List.mem_append_right _ hmem)
    have hpayload : message.pcztBytes ∉ payloads := fun hmem =>
      (List.nodup_cons.1 hpayloads).1 (List.mem_append_right _ hmem)
    simp only [prepareFrom, bind_eq_ok, pure_eq_ok, checkMessage_eq_ok, ih hids' hpayloads',
      List.mapM_cons, List.forall_mem_cons]
    constructor
    · rintro ⟨-, ⟨hne, -, hnil, -⟩, head, hhead, others, ⟨hrest, hothers⟩, rfl⟩
      exact ⟨⟨⟨hne, hnil⟩, hrest⟩, head, hhead, others, hothers, rfl⟩
    · rintro ⟨⟨⟨hne, hnil⟩, hrest⟩, head, hhead, others, hothers, rfl⟩
      exact ⟨(), ⟨hne, hid, hnil, hpayload⟩, head, hhead, others, ⟨hrest, hothers⟩, rfl⟩

/-- Preparation of distinct messages fails at one that is not valid. -/
theorem exists_not_valid {messages : List ZcashBatchMessageInput} {e : String}
    (hids : (messages.map (·.id)).Nodup) (hpayloads : (messages.map (·.pcztBytes)).Nodup)
    (h : prepareZcashBatchMessages codec messages = .error e) :
    ∃ message ∈ messages, ¬ message.Valid codec := by
  by_contra! hvalid
  cases hprepared : messages.mapM (prepareMessage codec) with
  | error e' =>
    obtain ⟨message, hmessage, herror⟩ := exists_of_mapM_eq_error hprepared
    obtain ⟨-, -, prepared, hok⟩ := hvalid message hmessage
    cases hok.symm.trans herror
  | ok prepared =>
    have hok : prepareZcashBatchMessages codec messages = .ok prepared := by
      refine (prepareFrom_eq_ok (by simpa using hids) (by simpa using hpayloads)).2 ⟨?_, hprepared⟩
      intro message hmessage
      exact ⟨(hvalid message hmessage).1, (hvalid message hmessage).2.1⟩
    cases hok.symm.trans h

theorem FitsRound.of_suffix (hcodec : codec.Regular) (hprepended : codec.Grows (· <:+ ·))
    {front back : List ZcashBatchMessageInput}
    (h : FitsRound codec requestIdLen roundLimit (front ++ back)) :
    FitsRound codec requestIdLen roundLimit back := by
  obtain ⟨hlength, prepared, hprepared, hfits⟩ := h
  rw [List.length_append] at hlength
  have hback := List.forall₂_drop_append _ _ _ (mapM_eq_ok.1 hprepared).flip
  exact ⟨by omega, _, mapM_eq_ok.2 hback.flip,
    hfits.of_suffix hcodec hprepended (List.drop_suffix ..)⟩

/-! ## The loop over the rounds -/

theorem probeRound_eq_some {remaining : List (PreparedZcashBatchMessage Pczt)} {count : ℕ}
    {size : ZcashSignBatchRoundSize} :
    probeRound codec requestIdLen remaining count = .ok (some size) ↔
      zcashSignBatchRoundSize codec (remaining.take count) requestIdLen = .ok size ∧
        size.fits requestIdLen := by
  simp only [probeRound, bind_eq_ok, pure_eq_ok, Option.ite_none_right_eq_some, Option.some.injEq]
  constructor
  · rintro ⟨size, hsize, hfits, rfl⟩
    exact ⟨hsize, hfits⟩
  · rintro ⟨hsize, hfits⟩
    exact ⟨size, hsize, hfits, rfl⟩

theorem exists_probeRound_iff {remaining : List (PreparedZcashBatchMessage Pczt)} {count : ℕ} :
    (∃ size, probeRound codec requestIdLen remaining count = .ok (some size)) ↔
      RoundFits codec requestIdLen (remaining.take count) :=
  exists_congr fun _ => probeRound_eq_some

theorem rejects_probeRound (hcodec : codec.Regular) (requestIdLen : ℕ)
    (remaining : List (PreparedZcashBatchMessage Pczt)) :
    Rejects (probeRound codec requestIdLen remaining) := by
  intro count later size _ hle hnone hsome
  have hlater := exists_probeRound_iff.1 ⟨size, hsome⟩
  obtain ⟨size', hsize'⟩ := exists_probeRound_iff.2
    (hlater.of_prefix hcodec (List.take_prefix_take_left hle))
  cases hnone.symm.trans hsize'

/-- The loop ends. Its rounds are cut greedily, or a message does not fit alone. -/
theorem countRounds_spec (hcodec : codec.Regular) (hpos : 0 < roundLimit)
    (hlimit : roundLimit ≤ zcashSignBatchMaxMessages) {fuel : ℕ}
    {pairs : List (ZcashBatchMessageInput × PreparedZcashBatchMessage Pczt)}
    (hfuel : pairs.length ≤ fuel) :
    (∃ e, countRounds codec requestIdLen roundLimit fuel pairs = some (.error e) ∧
      ∃ pair ∈ pairs, ¬ RoundFits codec requestIdLen [pair.2]) ∨
    ∃ counts, countRounds codec requestIdLen roundLimit fuel pairs = some (.ok counts) ∧
      Greedy (fun part => part.length ≤ roundLimit ∧
        RoundFits codec requestIdLen (part.map Prod.snd)) pairs counts := by
  induction fuel generalizing pairs with
  | zero =>
    obtain rfl := List.length_eq_zero_iff.1 (Nat.le_zero.1 hfuel)
    exact .inr ⟨[], rfl, .nil⟩
  | succ fuel ih =>
    rcases pairs with _ | ⟨⟨first, message⟩, rest⟩
    · exact .inr ⟨[], rfl, .nil⟩
    rw [countRounds]
    have hremaining : message :: rest.map Prod.snd = ((first, message) :: rest).map Prod.snd := rfl
    rw [hremaining, List.length_map]
    generalize hpairs : (first, message) :: rest = pairs at hfuel ⊢
    have hlength : (pairs.map Prod.snd).length = pairs.length := List.length_map _
    have hrejects := rejects_probeRound hcodec requestIdLen (pairs.map Prod.snd)
    obtain ⟨count, e, hcount, hle, hprobe, hbisect⟩ | ⟨best, hbisect, hbest⟩ :=
      bisect_spec (min pairs.length roundLimit) hrejects
    · rw [hbisect]
      refine .inl ⟨e, rfl, ?_⟩
      by_contra! hfit
      have hshort : ((pairs.map Prod.snd).take count).length ≤ zcashSignBatchMaxMessages := by
        rw [List.length_take]
        omega
      obtain ⟨size, hsize⟩ := exists_size_of_fit hcodec hshort fun message hmessage => by
        obtain ⟨pair, hpair, rfl⟩ := List.mem_map.1 (List.mem_of_mem_take hmessage)
        exact hfit pair hpair
      rw [probeRound, hsize] at hprobe
      cases hprobe
    cases best with
    | none =>
      rw [hbisect]
      refine .inl ⟨_, rfl, (first, message), hpairs ▸ List.mem_cons_self, fun hfits => ?_⟩
      have hne : 0 < pairs.length := hpairs ▸ Nat.succ_pos _
      obtain ⟨size, hsize⟩ := exists_probeRound_iff.2 (hpairs ▸ hfits :
        RoundFits codec requestIdLen ((pairs.map Prod.snd).take 1))
      exact hbest 1 size Nat.one_pos (by omega) hsize
    | some best =>
      obtain ⟨count, size⟩ := best
      obtain ⟨hcount, hle, hprobe, hlater⟩ := hbest
      have hfits := exists_probeRound_iff.1 ⟨size, hprobe⟩
      have hrest : (pairs.drop count).length ≤ fuel := by
        rw [List.length_drop]
        omega
      rw [hbisect]
      dsimp only
      obtain ⟨e, herror, pair, hpair, hnot⟩ | ⟨counts, hcounts, hgreedy⟩ := ih hrest
      · exact .inl ⟨e, by rw [herror]; rfl, pair, List.mem_of_mem_drop hpair, hnot⟩
      · refine .inr ⟨count :: counts, by rw [hcounts]; rfl, .cons hcount (by omega) ?_ ?_ hgreedy⟩
        · rw [List.map_take, List.length_take]
          exact ⟨by omega, hfits⟩
        · rintro later hlt hlaterLe ⟨hshort, hlaterFits⟩
          rw [List.length_take] at hshort
          rw [List.map_take] at hlaterFits
          obtain ⟨size', hsize'⟩ := exists_probeRound_iff.2 hlaterFits
          exact hlater later size' hlt (by omega) hsize'

/-! ## The encoder -/

/-- The encoder passes every check; the split of the request into parts is left. -/
def EncoderAccepts (codec : BatchCodec Pczt) (requestId : Bytes)
    (messages : List ZcashBatchMessageInput) : Prop :=
  ∃ postcard cbor, encodeZcashSignBatchPostcard codec messages = .ok postcard ∧
    codec.envelope requestId postcard = .ok cbor ∧
    ∀ maxFragmentLen, encodeZcashSignBatchUrParts codec requestId messages maxFragmentLen =
      codec.urParts cbor maxFragmentLen

/-- The loop of the encoder over valid messages whose totals are within the limits. -/
theorem collectPczts_eq (ids : List String) (payloads : List Bytes) (total count : ℕ)
    {messages : List ZcashBatchMessageInput} {prepared : List (PreparedZcashBatchMessage Pczt)}
    (hprepared : List.Forall₂ (fun m p => prepareMessage codec m = .ok p) messages prepared)
    (hids : (messages.map (·.id) ++ ids).Nodup)
    (hpayloads : (messages.map (·.pcztBytes) ++ payloads).Nodup)
    (hvalid : ∀ message ∈ messages, message.id ≠ "" ∧ message.pcztBytes ≠ [])
    (htotal : total + (prepared.map (·.compactPayloadLen)).sum ≤ zcashSignBatchMaxTotalBytes)
    (hcount : count + (prepared.map (·.expectedSignatureCount)).sum ≤
      zcashSignBatchMaxSignatures) :
    collectPczts codec ids payloads total count messages =
      .ok (prepared.map (·.compactPczt)) := by
  have htotalMax : zcashSignBatchMaxTotalBytes < 2 ^ 64 := by decide
  have hcountMax : zcashSignBatchMaxSignatures < 2 ^ 64 := by decide
  induction hprepared generalizing ids payloads total count with
  | nil => rfl
  | @cons message head rest others hhead _ ih =>
    obtain ⟨hparse, -, hlength, hexpected⟩ := prepareMessage_eq_ok.1 hhead
    obtain ⟨⟨hne, hnil⟩, hvalid⟩ := List.forall_mem_cons.1 hvalid
    rw [List.map_cons, List.sum_cons] at htotal hcount
    have hid : message.id ∉ ids := fun hmem =>
      (List.nodup_cons.1 hids).1 (List.mem_append_right _ hmem)
    have hpayload : message.pcztBytes ∉ payloads := fun hmem =>
      (List.nodup_cons.1 hpayloads).1 (List.mem_append_right _ hmem)
    have hrest := ih (message.id :: ids) (message.pcztBytes :: payloads)
      (total + message.pcztBytes.length) (count + message.expectedSignatureCount.toNat)
      (List.nodup_middle.2 hids) (List.nodup_middle.2 hpayloads) hvalid (by omega) (by omega)
    have hcheck : checkMessage ids payloads message = .ok () :=
      checkMessage_eq_ok.2 ⟨hne, hid, hnil, hpayload⟩
    have htotalAdd (e : String) : addUsize total message.pcztBytes.length e =
        .ok (total + message.pcztBytes.length) := addUsize_eq_ok.2 ⟨by omega, rfl⟩
    have hcountAdd (e : String) : addUsize count message.expectedSignatureCount.toNat e =
        .ok (count + message.expectedSignatureCount.toNat) := addUsize_eq_ok.2 ⟨by omega, rfl⟩
    have hpczt : parseMessage codec message = .ok head.compactPczt := mapError_eq_ok.2 hparse
    rw [collectPczts, hcheck, ok_bind, htotalAdd, ok_bind, ensure_of _ (by omega), ok_bind, hpczt,
      ok_bind, hcountAdd, ok_bind, ensure_of _ (by omega), ok_bind, hrest]
    rfl

/-- A round that fits under a longer placeholder is accepted under its identifier. -/
theorem encoderAccepts_of_fitsRound (hcodec : codec.Regular) {requestId : Bytes}
    {messages : List ZcashBatchMessageInput} (hid : requestId ≠ [])
    (hidLength : requestId.length ≤ requestIdLen) (hne : messages ≠ [])
    (hids : (messages.map (·.id)).Nodup) (hpayloads : (messages.map (·.pcztBytes)).Nodup)
    (hvalid : ∀ message ∈ messages, message.id ≠ "" ∧ message.pcztBytes ≠ [])
    (hlimit : roundLimit ≤ zcashSignBatchMaxMessages)
    (hfits : FitsRound codec requestIdLen roundLimit messages) :
    EncoderAccepts codec requestId messages := by
  obtain ⟨hlength, prepared, hprepared, hround⟩ := hfits
  obtain ⟨hpayload, hcount, request, placeholder, -, hrequest, hplaceholder, -, htotal, hcompact,
    -⟩ := roundFits_iff.1 hround
  obtain ⟨cbor, hcbor⟩ := hcodec.envelope_ok requestId request
  have hcborLen := hcodec.envelope_length (by rwa [List.length_replicate]) hcbor hplaceholder
  have hpczts := collectPczts_eq [] [] 0 0 (mapM_eq_ok.1 hprepared) (by simpa using hids)
    (by simpa using hpayloads) hvalid (by omega) (by omega)
  have hpostcard : encodeZcashSignBatchPostcard codec messages = .ok request := by
    rw [encodeZcashSignBatchPostcard, ensure_of _ ⟨hne, hlength.trans hlimit⟩, ok_bind, hpczts,
      ok_bind, hrequest]
    rfl
  have hrequestLen : saturatingAdd requestId.length request.length ≤
      zcashSignBatchMaxTotalBytes := (saturatingAdd_le (by decide)).2 (by omega)
  refine ⟨request, cbor, hpostcard, hcbor, fun maxFragmentLen => ?_⟩
  rw [encodeZcashSignBatchUrParts, ensure_of _ hid, ok_bind, hpostcard, ok_bind,
    ensure_of _ hrequestLen, ok_bind, hcbor]
  show (ensure _ _ >>= fun _ => codec.urParts cbor maxFragmentLen) = _
  rw [ensure_of _ (hcborLen.trans hcompact), ok_bind]

/-- The identifier of a round is no longer than the placeholder. -/
theorem length_roundRequestId_le (requestId : Bytes) {round rounds limit : ℕ}
    (hround : round ≤ limit) (hrounds : rounds ≤ limit) :
    (roundRequestId requestId round rounds).length ≤
      (roundRequestId requestId limit limit).length := by
  have hfirst := length_decimal_mono hround
  have hsecond := length_decimal_mono hrounds
  simp only [roundRequestId, List.length_append]
  omega

/-! ## The rounds -/

/-- On the messages of prepared pairs, the test of the loop is that they fit into one round. -/
theorem fitsRound_map_fst_iff {messages : List ZcashBatchMessageInput}
    {prepared : List (PreparedZcashBatchMessage Pczt)}
    {part : List (ZcashBatchMessageInput × PreparedZcashBatchMessage Pczt)}
    (hprepared : List.Forall₂ (fun m p => prepareMessage codec m = .ok p) messages prepared)
    (hpart : part <:+: messages.zip prepared) :
    FitsRound codec requestIdLen roundLimit (part.map Prod.fst) ↔
      part.length ≤ roundLimit ∧ RoundFits codec requestIdLen (part.map Prod.snd) := by
  have hpairs : List.Forall₂ (fun m p => prepareMessage codec m = .ok p) (part.map Prod.fst)
      (part.map Prod.snd) := by
    rw [List.forall₂_map_left_iff, List.forall₂_map_right_iff, List.forall₂_same]
    exact fun pair hpair => List.forall₂_zip hprepared (hpart.mem hpair)
  rw [FitsRound, List.length_map]
  refine and_congr_right fun _ => ⟨?_, fun hround => ⟨_, mapM_eq_ok.2 hpairs, hround⟩⟩
  rintro ⟨prepared', hprepared', hround⟩
  rw [mapM_eq_ok.2 hpairs] at hprepared'
  cases hprepared'
  exact hround

/-- The identifier that sizes are measured under is as long as this. -/
def placeholderLength (requestId : Bytes) (messages : List ZcashBatchMessageInput) : ℕ :=
  (roundRequestId requestId messages.length messages.length).length

/-- The rounds that a greedy cut makes are accepted, and no other cut has fewer of them. -/
theorem counts_of_greedy (hcodec : codec.Regular) {requestId : Bytes} (hid : requestId ≠ [])
    {messages : List ZcashBatchMessageInput} {counts : List ℕ}
    (hids : (messages.map (·.id)).Nodup) (hpayloads : (messages.map (·.pcztBytes)).Nodup)
    (hvalid : ∀ message ∈ messages, message.id ≠ "" ∧ message.pcztBytes ≠ [])
    (hlimit : roundLimit ≤ zcashSignBatchMaxMessages)
    (h : Greedy (FitsRound codec (placeholderLength requestId messages) roundLimit) messages
      counts) :
    (∀ count ∈ counts, 0 < count ∧ count ≤ roundLimit) ∧ counts.sum = messages.length ∧
      (∀ round part, (cutBatches messages counts)[round]? = some part →
        EncoderAccepts codec (roundRequestId requestId (round + 1) counts.length) part) ∧
      (codec.Grows (· <:+ ·) → ∀ parts : List (List ZcashBatchMessageInput),
        parts.flatten = messages →
        (∀ part ∈ parts, FitsRound codec (placeholderLength requestId messages) roundLimit part) →
        counts.length ≤ parts.length) := by
  have hparts := h.forall_mem_cutBatches
  have hlengths := map_length_cutBatches messages counts h.sum_eq.le
  have hcounts : ∀ count ∈ counts, 0 < count ∧ count ≤ roundLimit := by
    intro count hcount
    rw [← hlengths] at hcount
    obtain ⟨part, hpart, rfl⟩ := List.mem_map.1 hcount
    obtain ⟨hne, -, hfits⟩ := hparts part hpart
    exact ⟨List.length_pos_iff.2 hne, hfits.1⟩
  have hrounds : counts.length ≤ messages.length := by
    rw [← h.sum_eq]
    exact List.length_le_sum_of_one_le counts fun count hcount => (hcounts count hcount).1
  refine ⟨hcounts, h.sum_eq, ?_, ?_⟩
  · intro round part hpart
    have hround := (List.getElem?_eq_some_iff.1 hpart).1
    have hcut := congrArg List.length hlengths
    rw [List.length_map] at hcut
    obtain ⟨hne, hblock, hfits⟩ := hparts part (List.mem_of_getElem? hpart)
    refine encoderAccepts_of_fitsRound hcodec ?_
      (length_roundRequestId_le requestId (by omega) hrounds) hne
      (hids.sublist (hblock.sublist.map _)) (hpayloads.sublist (hblock.sublist.map _))
      (fun message hmessage => hvalid message (hblock.mem hmessage)) hlimit hfits
    simp [roundRequestId, hid]
  · rintro hprepended parts rfl hfit
    exact h.length_le (fun _ _ hfits => hfits.of_suffix hcodec hprepended) hfit

/-- For a regular codec, an identifier that is not empty, and distinct messages, the sizes of the
rounds are found. A refusal names a message that is not valid or does not fit alone. Otherwise the
encoder accepts each round, and no other cut into rounds that fit has fewer of them when requests
are not shorter for a transaction put in front. -/
theorem rounds_accepted_and_fewest (hcodec : codec.Regular) {requestId : Bytes}
    (hid : requestId ≠ []) {messages : List ZcashBatchMessageInput}
    (hids : (messages.map (·.id)).Nodup)
    (hpayloads : (messages.map (·.pcztBytes)).Nodup) {maxMessages : ℕ} (hmax : 0 < maxMessages) :
    (∃ e, zcashSignBatchRoundMessageCounts codec requestId messages maxMessages =
        some (.error e) ∧
      ∃ message ∈ messages, ¬ message.Valid codec ∨
        ¬ FitsRound codec (placeholderLength requestId messages)
          (min maxMessages zcashSignBatchMaxMessages) [message]) ∨
    ∃ counts, zcashSignBatchRoundMessageCounts codec requestId messages maxMessages =
        some (.ok counts) ∧
      (∀ count ∈ counts, 0 < count ∧ count ≤ min maxMessages 40) ∧
      counts.sum = messages.length ∧
      (∀ round part, (cutBatches messages counts)[round]? = some part →
        EncoderAccepts codec (roundRequestId requestId (round + 1) counts.length) part) ∧
      (codec.Grows (· <:+ ·) → ∀ parts : List (List ZcashBatchMessageInput),
        parts.flatten = messages →
        (∀ part ∈ parts, FitsRound codec (placeholderLength requestId messages)
          (min maxMessages zcashSignBatchMaxMessages) part) →
        counts.length ≤ parts.length) := by
  have hlimit := Nat.min_le_right maxMessages zcashSignBatchMaxMessages
  have hpos : 0 < min maxMessages zcashSignBatchMaxMessages := Nat.lt_min.2 ⟨hmax, by decide⟩
  rw [zcashSignBatchRoundMessageCounts, if_neg hid]
  by_cases hnil : messages = []
  · subst hnil
    exact .inr ⟨[], rfl, counts_of_greedy hcodec hid hids hpayloads (by simp) hlimit .nil⟩
  rw [if_neg hnil, if_neg (by omega)]
  cases hprepared : prepareZcashBatchMessages codec messages with
  | error e =>
    obtain ⟨message, hmessage, hnot⟩ := exists_not_valid hids hpayloads hprepared
    exact .inl ⟨e, rfl, message, hmessage, .inl hnot⟩
  | ok prepared =>
    obtain ⟨hvalid, hmapM⟩ :=
      (prepareFrom_eq_ok (by simpa using hids) (by simpa using hpayloads)).1 hprepared
    have hpairs := mapM_eq_ok.1 hmapM
    have hfst : (messages.zip prepared).map Prod.fst = messages :=
      List.map_fst_zip hpairs.length_eq.le
    obtain ⟨e, herror, pair, hpair, hnot⟩ | ⟨counts, hcounts, hgreedy⟩ :=
      countRounds_spec hcodec hpos hlimit
        (by rw [List.length_zip]; omega : (messages.zip prepared).length ≤ messages.length)
    · refine .inl ⟨e, herror, pair.1, (List.of_mem_zip hpair).1, .inr fun hfits => hnot ?_⟩
      obtain ⟨front, back, hsplit⟩ := List.append_of_mem hpair
      have hsingle : [pair] <:+: messages.zip prepared := ⟨front, back, by simp [hsplit]⟩
      exact ((fitsRound_map_fst_iff hpairs hsingle).1 hfits).2
    · refine .inr ⟨counts, hcounts, ?_⟩
      have hmessages := hgreedy.map fun part hpart => fitsRound_map_fst_iff hpairs hpart
      rw [hfst] at hmessages
      exact counts_of_greedy hcodec hid hids hpayloads hvalid hlimit hmessages

/-- Requests that join their transactions. -/
def wordCodec : BatchCodec Bytes where
  parse payload := .ok payload
  resolveFields pczt := .ok pczt
  serialize pczts := .ok pczts.flatten
  envelope requestId request := .ok (requestId ++ request)
  urParts _ _ := .ok []

theorem wordCodec_grows {fewer : List Bytes → List Bytes → Prop}
    (h : ∀ part pczts, fewer part pczts → part.Sublist pczts) : wordCodec.Grows fewer := by
  rintro part pczts _ _ hfewer ⟨⟩ ⟨⟩
  have hlength := (h part pczts hfewer).flatten.length_le
  refine ⟨hlength, ?_⟩
  rintro requestId _ _ ⟨⟩ ⟨⟩
  simpa using hlength

theorem wordCodec_regular : wordCodec.Regular where
  serialize_ok pczts := ⟨pczts.flatten, rfl⟩
  envelope_ok requestId request := ⟨requestId ++ request, rfl⟩
  appended := wordCodec_grows fun _ _ => List.IsPrefix.sublist
  envelope_length := by
    rintro requestId requestId' request _ _ hlength ⟨⟩ ⟨⟩
    simpa using hlength

/-- Five messages, with more signatures than one round may ask for. -/
def sampleMessages : List ZcashBatchMessageInput :=
  [⟨"a", [1], 60⟩, ⟨"b", [2], 50⟩, ⟨"c", [3], 40⟩, ⟨"d", [4], 30⟩, ⟨"e", [5], 1⟩]

/-- The messages go into three rounds, which are accepted, and not into two. -/
theorem rounds_accepted_and_fewest_sample :
    zcashSignBatchRoundMessageCounts wordCodec (ascii "r") sampleMessages 40 =
        some (.ok [1, 2, 2]) ∧
      EncoderAccepts wordCodec (ascii "r-round-1-of-3") (sampleMessages.take 1) ∧
      EncoderAccepts wordCodec (ascii "r-round-2-of-3") ((sampleMessages.drop 1).take 2) ∧
      EncoderAccepts wordCodec (ascii "r-round-3-of-3") (sampleMessages.drop 3) ∧
      ¬ ∃ parts : List (List ZcashBatchMessageInput), parts.flatten = sampleMessages ∧
        (∀ part ∈ parts, FitsRound wordCodec (placeholderLength (ascii "r") sampleMessages) 40
          part) ∧ parts.length < 3 := by
  have hvalue : zcashSignBatchRoundMessageCounts wordCodec (ascii "r") sampleMessages 40 =
      some (.ok [1, 2, 2]) := by decide +kernel
  obtain ⟨e, herror, -⟩ | ⟨counts, hcounts, -, -, haccepted, hfewest⟩ :=
    rounds_accepted_and_fewest wordCodec_regular (by decide : ascii "r" ≠ [])
      (by decide : (sampleMessages.map (·.id)).Nodup)
      (by decide : (sampleMessages.map (·.pcztBytes)).Nodup) (by decide : 0 < 40)
  · cases hvalue.symm.trans herror
  · cases hvalue.symm.trans hcounts
    refine ⟨hvalue, haccepted 0 _ rfl, haccepted 1 _ rfl, haccepted 2 _ rfl, ?_⟩
    rintro ⟨parts, hparts, hfits, hlt⟩
    have hle := hfewest (wordCodec_grows fun _ _ => List.IsSuffix.sublist) parts hparts hfits
    exact absurd hlt (Nat.not_lt.2 hle)

/-- A request that begins with the first three of four transactions, or with the last two, is too
large. -/
def skewBytes (pczts : List Bytes) : ℕ :=
  if [[1], [2], [3]] <+: pczts ∨ [[3], [4]] <+: pczts then zcashSignBatchMaxCompactCborBytes
  else 0

def skewCodec : BatchCodec Bytes where
  parse payload := .ok payload
  resolveFields pczt := .ok pczt
  serialize pczts := .ok (List.replicate (skewBytes pczts) 0)
  envelope requestId request := .ok (requestId ++ request)
  urParts _ _ := .ok []

theorem skewBytes_mono {part pczts : List Bytes} (h : part <+: pczts) :
    skewBytes part ≤ skewBytes pczts := by
  unfold skewBytes
  split_ifs with hpart hpczts
  · exact Nat.le_refl _
  · exact absurd (hpart.imp (·.trans h) (·.trans h)) hpczts
  · exact Nat.zero_le _
  · exact Nat.le_refl _

theorem skewCodec_regular : skewCodec.Regular where
  serialize_ok pczts := ⟨_, rfl⟩
  envelope_ok requestId request := ⟨_, rfl⟩
  appended := by
    rintro part pczts _ _ hpart ⟨⟩ ⟨⟩
    refine ⟨by simpa using skewBytes_mono hpart, ?_⟩
    rintro requestId _ _ ⟨⟩ ⟨⟩
    simpa using skewBytes_mono hpart
  envelope_length := by
    rintro requestId requestId' request _ _ hlength ⟨⟩ ⟨⟩
    simpa using hlength

theorem roundFits_skewCodec_iff {prepared : List (PreparedZcashBatchMessage Bytes)} :
    RoundFits skewCodec requestIdLen prepared ↔
      (prepared.map (·.compactPayloadLen)).sum ≤ zcashSignBatchMaxTotalBytes ∧
      (prepared.map (·.expectedSignatureCount)).sum ≤ zcashSignBatchMaxSignatures ∧
      requestIdLen + skewBytes (prepared.map (·.compactPczt)) ≤
        zcashSignBatchMaxCompactCborBytes ∧
      requestIdLen + skewBytes (prepared.map (·.resolvedPczt)) ≤
        zcashSignBatchMaxResolvedTotalBytes := by
  have hlimit : zcashSignBatchMaxCompactCborBytes ≤ zcashSignBatchMaxTotalBytes := by decide
  rw [roundFits_iff]
  constructor
  · rintro ⟨hpayload, hcount, _, _, _, ⟨⟩, ⟨⟩, ⟨⟩, -, hcbor, hresolved⟩
    rw [List.length_append, List.length_replicate, List.length_replicate] at hcbor
    rw [List.length_replicate] at hresolved
    exact ⟨hpayload, hcount, hcbor, hresolved⟩
  · rintro ⟨hpayload, hcount, hcbor, hresolved⟩
    refine ⟨hpayload, hcount, _, _, _, rfl, rfl, rfl, ?_, ?_, ?_⟩
    · rw [List.length_replicate]
      omega
    · rwa [List.length_append, List.length_replicate, List.length_replicate]
    · rwa [List.length_replicate]

instance (prepared : List (PreparedZcashBatchMessage Bytes)) :
    Decidable (RoundFits skewCodec requestIdLen prepared) :=
  decidable_of_iff _ roundFits_skewCodec_iff.symm

def fourMessages : List ZcashBatchMessageInput :=
  [⟨"a", [1], 1⟩, ⟨"b", [2], 1⟩, ⟨"c", [3], 1⟩, ⟨"d", [4], 1⟩]

def fourPrepared : List (PreparedZcashBatchMessage Bytes) :=
  [⟨[1], [1], 1, 1⟩, ⟨[2], [2], 1, 1⟩, ⟨[3], [3], 1, 1⟩, ⟨[4], [4], 1, 1⟩]

theorem greedy_fourMessages :
    Greedy (fun part => part.length ≤ 40 ∧ RoundFits skewCodec 14 (part.map Prod.snd))
      (fourMessages.zip fourPrepared) [2, 1, 1] := by
  have hgreatest (l : List (ZcashBatchMessageInput × PreparedZcashBatchMessage Bytes)) (size : ℕ)
      (h : ∀ later ∈ List.range (l.length + 1), size < later →
        ¬ RoundFits skewCodec 14 ((l.take later).map Prod.snd)) :
      ∀ later, size < later → later ≤ l.length →
        ¬ ((l.take later).length ≤ 40 ∧ RoundFits skewCodec 14 ((l.take later).map Prod.snd)) :=
    fun later hlt hle hfits => h later (List.mem_range.2 (by omega)) hlt hfits.2
  refine .cons (by decide) (by decide) (by decide) (hgreatest _ _ (by decide)) ?_
  refine .cons (by decide) (by decide) (by decide) (hgreatest _ _ (by decide)) ?_
  exact .cons (by decide) (by decide) (by decide) (hgreatest _ _ (by decide)) .nil

theorem countRounds_fourMessages :
    countRounds skewCodec 14 40 4 (fourMessages.zip fourPrepared) = some (.ok [2, 1, 1]) := by
  have halone : ∀ pair ∈ fourMessages.zip fourPrepared, RoundFits skewCodec 14 [pair.2] := by
    decide
  obtain ⟨e, -, pair, hpair, hnot⟩ | ⟨counts, hcounts, hgreedy⟩ :=
    @countRounds_spec Bytes skewCodec 14 40 skewCodec_regular (by decide) (by decide) 4
      (fourMessages.zip fourPrepared) (by decide)
  · exact absurd (halone pair hpair) hnot
  · rwa [hgreedy.unique greedy_fourMessages] at hcounts

/-- The empty identifier is refused although the message is valid and fits. With a format whose
requests may be shorter for a transaction in front, two rounds would do where three are made. -/
theorem rounds_refused_or_not_fewest :
    (zcashSignBatchRoundMessageCounts wordCodec [] [⟨"a", [1], 1⟩] 40 =
        some (.error "Zcash batch request id must not be empty") ∧
      ZcashBatchMessageInput.Valid wordCodec ⟨"a", [1], 1⟩ ∧
      FitsRound wordCodec (placeholderLength [] [⟨"a", [1], 1⟩]) 40 [⟨"a", [1], 1⟩]) ∧
    skewCodec.Regular ∧
      zcashSignBatchRoundMessageCounts skewCodec (ascii "r") fourMessages 40 =
        some (.ok [2, 1, 1]) ∧
      ∃ parts : List (List ZcashBatchMessageInput), parts.flatten = fourMessages ∧
        (∀ part ∈ parts, FitsRound skewCodec (placeholderLength (ascii "r") fourMessages) 40
          part) ∧ parts.length = 2 := by
  refine ⟨⟨rfl, ⟨by decide, by decide, _, rfl⟩, ?_⟩, skewCodec_regular, ?_, ?_⟩
  · refine ⟨by decide, _, rfl, roundFits_iff.2 ⟨by decide, by decide, _, _, _, rfl, rfl, rfl, ?_⟩⟩
    decide
  · have hprepared : prepareZcashBatchMessages skewCodec fourMessages = .ok fourPrepared := rfl
    rw [zcashSignBatchRoundMessageCounts, if_neg (by decide), if_neg (by decide),
      if_neg (by decide), hprepared]
    exact countRounds_fourMessages
  · refine ⟨[fourMessages.take 1, fourMessages.drop 1], by decide, ?_, rfl⟩
    have hlength : placeholderLength (ascii "r") fourMessages = 14 := by decide
    rw [hlength, List.forall_mem_cons, List.forall_mem_singleton]
    exact ⟨⟨by decide, fourPrepared.take 1, rfl, by decide⟩,
      ⟨by decide, fourPrepared.drop 1, rfl, by decide⟩⟩

end VizorWallet.Keystone
