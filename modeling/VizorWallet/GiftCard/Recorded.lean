import VizorWallet.GiftCard.Evidence
import VizorWallet.PaymentLink.Usage

/-!
# Usage evidence is storable

The evidence of the observer becomes the usage of a record, which is refused when it contradicts
itself. Evidence never does, also after a server was asked for missing funding.

## Main definitions

* `recordedUsage` — the usage of a record.
* `GiftCardUsageEvidence.Coherent` — what evidence never contradicts.

## Main results

* `coherent_inspectGiftCardUsage` — evidence is coherent.
* `fromJson_recordedUsage` — coherent evidence is stored.
-/

namespace VizorWallet.GiftCard

open PaymentLink CodeUnits

variable {Double Time : Type} {P : RecordPackages Double Time}
  {F : FirstBy (Prod.snd : Bytes × ℕ → ℕ)} {db : ObserverDb} {height : ℕ}
  {ids : Finset (List Char)} {rows : List (ReceivedOutput × TransactionRow)} {tally : Tally}

/-- `RustGiftCardTrackingBackend.inspect` -/
def recordedUsage (evidence : GiftCardUsageEvidence) (accountUuid : CodeUnits) (checkedAt : Time) :
    Option (GiftCardUsage Time) := do
  let status ← GiftCardUsageStatus.byName (ofBytes evidence.status)
  let reason ← evidence.reason.elim (some none) fun reason =>
    (GiftCardUsageReason.byName (ofBytes reason)).map some
  return {
    status
    reason
    accountUuid := some accountUuid
    checkedAt := some checkedAt
    verifiedHeight := .ofNat evidence.verifiedHeight
    spentHeight := .ofNat evidence.spentHeight
    spendingTxids := evidence.spendingTxids.map ofBytes
    cleanupPending := evidence.canDelete }

/-- Evidence that does not contradict itself. -/
structure GiftCardUsageEvidence.Coherent (evidence : GiftCardUsageEvidence) : Prop where
  status : ∃ status : GiftCardUsageStatus, ofBytes evidence.status = status.name
  reason : ∀ text ∈ evidence.reason, ∃ reason : GiftCardUsageReason, ofBytes text = reason.name
  unknown : evidence.reason.isSome → evidence.status = ascii "unknown"
  spending : ∀ text ∈ evidence.spendingTxids, isTxid (ofBytes text)
  verified : evidence.verifiedHeight < 2 ^ 63
  spent : evidence.spentHeight ≤ evidence.verifiedHeight
  used : evidence.status = ascii "used" → 1 ≤ evidence.spentHeight ∧
    evidence.spentHeight + 5 ≤ evidence.verifiedHeight ∧ evidence.spendingTxids ≠ []
  canDelete : evidence.canDelete → evidence.status = ascii "used"

theorem isTxid_encode (txid : Fixed 32) : isTxid (ofBytes (Hex.encode txid.1)) := by
  have hdigit : ∀ n, n < 16 → (fun u : UInt16 => (0x30 ≤ u && u ≤ 0x39) || (0x61 ≤ u && u ≤ 0x66))
      (Hex.digit n).toUInt16 = true := by decide
  have hlength : (ofBytes (Hex.encode txid.1)).length = 64 := by
    rw [length_ofBytes, Hex.length_encode, txid.2]
  rw [isTxid, hlength, ofBytes, Hex.encode, List.all_map, List.all_flatMap]
  simp only [decide_true, Bool.true_and, List.all_eq_true]
  intro b _
  have hb := b.toNat_lt
  rw [List.forall_mem_cons, List.forall_mem_singleton]
  exact ⟨hdigit _ (by omega), hdigit _ (by omega)⟩

theorem Tally.status_eq_unknown {funded : Bool} (h : funded = false) :
    tally.status funded = ascii "unknown" := by
  rw [Tally.status, if_pos (by simp [h])]

theorem Tally.exists_status_name (funded : Bool) :
    ∃ status : GiftCardUsageStatus, ofBytes (tally.status funded) = status.name := by
  unfold Tally.status
  split_ifs
  · exact ⟨.used, rfl⟩
  · exact ⟨.spendDetected, rfl⟩
  · exact ⟨.unused, rfl⟩
  · exact ⟨.unknown, rfl⟩

theorem Tally.exists_reason_name {funded : Bool} {expected : ℕ} {text : Bytes}
    (h : tally.reason ids expected funded = some text) :
    funded = false ∧ ∃ reason : GiftCardUsageReason, ofBytes text = reason.name := by
  unfold Tally.reason at h
  split_ifs at h with h₁ h₂ h₃
  · exact ⟨by simpa using h₁, .missingFundingInfo, by rw [← Option.some.inj h]; rfl⟩
  · exact ⟨by simpa using h₁, .fundingNotObserved, by rw [← Option.some.inj h]; rfl⟩
  · exact ⟨by simpa using h₁, .amountMismatch, by rw [← Option.some.inj h]; rfl⟩

/-- A used card has a spend, and none that is not settled. -/
theorem Tally.Describes.spent_of_isUsed (h : tally.Describes db height ids rows) {expected : ℕ}
    (hused : IsUsed db height ids expected rows) :
    1 ≤ tally.spentHeight ∧ tally.spentHeight + 5 ≤ height ∧ tally.spending ≠ [] := by
  obtain ⟨row, hrow⟩ : ∃ row, row ∈ rows.filter (IsFunding ids ·) := by
    refine List.exists_mem_of_ne_nil _ fun hnil => ?_
    have hcovered := hused.covered
    have hpos := hused.pos
    simp only [hnil, List.map_nil, List.sum_nil, Nat.zero_min] at hcovered
    omega
  obtain ⟨hmem, hfunding⟩ := List.mem_filter.1 hrow
  have hfunding := of_decide_eq_true hfunding
  obtain ⟨hmined, hsettled⟩ := hused.settled row hmem hfunding
  obtain ⟨hpos, hspending⟩ := h.spent (h.anySpent row hmem ⟨hfunding, hmined⟩ hsettled)
  refine ⟨hpos, ?_, hspending⟩
  have hdeep := h.deep (h.allSettled.2 hused.settled)
  omega

/-- What is reported of a tally is coherent. -/
theorem Tally.Describes.coherent (hheight : height < 2 ^ 63)
    (h : tally.Describes db height ids rows) (expected : ℕ) :
    (tally.evidence height ids expected).Coherent where
  status := Tally.exists_status_name _
  reason _ htext := (Tally.exists_reason_name htext).2
  unknown hreason := by
    obtain ⟨text, htext⟩ := Option.isSome_iff_exists.1 hreason
    exact Tally.status_eq_unknown (Tally.exists_reason_name htext).1
  spending text htext := by
    obtain ⟨tx, -, rfl⟩ := h.spending text htext
    exact isTxid_encode tx.txid
  verified := hheight
  spent := h.shallow
  used hused := h.spent_of_isUsed (h.used_iff.1 hused)
  canDelete hdelete := h.used_iff.2 (h.canDelete_iff.1 hdelete).1

theorem exists_fundingReason_name {heights : List (Option ℕ)} {verifiedHeight : ℕ} {text : Bytes}
    (h : fundingReason heights verifiedHeight = .ok text) :
    ∃ reason : GiftCardUsageReason, ofBytes text = reason.name := by
  unfold fundingReason at h
  split_ifs at h with h₁ h₂ h₃ h₄
  · exact ⟨.missingFundingInfo, by rw [← pure_eq_ok.1 h]; rfl⟩
  all_goals
    simp only [bind_eq_ok, ensure_eq_ok, exists_const, pure_eq_ok] at h
    obtain ⟨-, rfl⟩ := h
  · exact ⟨.fundingNotObserved, rfl⟩
  · exact ⟨.awaitingConfirmation, rfl⟩
  · exact ⟨.scanIncomplete, rfl⟩
  · exact ⟨.fundingNotObserved, rfl⟩

/-- What the observer reports is coherent, whatever a server answers. -/
theorem coherent_inspectGiftCardUsage {uuid : Bytes} {fundingTxids : List Char} {expected : ℕ}
    {lookup : Except String (List (Option ℕ))} {evidence : GiftCardUsageEvidence}
    (h : inspectGiftCardUsage F db uuid fundingTxids expected lookup = .ok evidence) :
    evidence.Coherent := by
  rw [inspectGiftCardUsage, bind_eq_ok] at h
  obtain ⟨inspected, hinspected, h⟩ := h
  have hcoherent : inspected.Coherent := by
    rw [inspectConnection, bind_eq_ok] at hinspected
    obtain ⟨account, -, hinspected⟩ := hinspected
    rw [← pure_eq_ok.1 hinspected]
    exact (tally_describes (verifiedHeight_lt db) _).coherent (verifiedHeight_lt db) expected
  split_ifs at h with hmissing
  · simp only [bind_eq_ok, pure_eq_ok] at h
    obtain ⟨heights, -, reason, hreason, rfl⟩ := h
    exact { hcoherent with
      reason := fun text htext => by
        rw [← Option.some.inj htext]
        exact exists_fundingReason_name hreason
      unknown := fun _ => hcoherent.unknown (by rw [hmissing]; rfl) }
  · exact pure_eq_ok.1 h ▸ hcoherent

/-! ## Storing -/

theorem status_eq_iff {text : Bytes} {status other : GiftCardUsageStatus} {name : String}
    (hstatus : ofBytes text = status.name) (hother : other.name = literal name) :
    text = ascii name ↔ status = other := by
  constructor
  · rintro rfl
    rw [← Option.some_inj, ← GiftCardUsageStatus.byName_name status, ← hstatus, ← literal, ← hother,
      GiftCardUsageStatus.byName_name]
  · rintro rfl
    rw [← toBytes_ofBytes text, hstatus, hother, literal, toBytes_ofBytes]

theorem ofNat_lt_ofNat {a b : ℕ} (ha : a < 2 ^ 63) (hb : b < 2 ^ 63) :
    Int64.ofNat a < Int64.ofNat b ↔ a < b := by
  rw [Int64.lt_iff_toInt_lt, Int64.toInt_ofNat_of_lt ha, Int64.toInt_ofNat_of_lt hb, Int.ofNat_lt]

theorem not_ofNat_neg {a : ℕ} (ha : a < 2 ^ 63) : ¬ Int64.ofNat a < 0 := by
  have hzero := ofNat_lt_ofNat ha (b := 0) (by decide)
  exact fun hlt => Nat.not_lt_zero a (hzero.1 hlt)

/-- Coherent evidence is a usage that does not contradict itself. -/
theorem GiftCardUsageEvidence.Coherent.recordedUsage {evidence : GiftCardUsageEvidence}
    (h : evidence.Coherent) {accountUuid : CodeUnits} (haccount : accountUuid ≠ [])
    (checkedAt : Time) :
    ∃ usage, GiftCard.recordedUsage evidence accountUuid checkedAt = some usage ∧
      ¬ usage.isInconsistent := by
  obtain ⟨status, hstatus⟩ := h.status
  have hunknown : evidence.status = ascii "unknown" ↔ status = .unknown :=
    status_eq_iff hstatus rfl
  have hused : evidence.status = ascii "used" ↔ status = .used := status_eq_iff hstatus rfl
  have hbyName : GiftCardUsageStatus.byName (ofBytes evidence.status) = some status := by
    rw [hstatus, GiftCardUsageStatus.byName_name]
  obtain ⟨reason, hreason, hsome⟩ : ∃ reason,
      (evidence.reason.elim (some none) fun reason =>
        (GiftCardUsageReason.byName (ofBytes reason)).map some) = some reason ∧
      (reason.isSome → status = .unknown) := by
    cases htext : evidence.reason with
    | none => exact ⟨none, rfl, nofun⟩
    | some text =>
      obtain ⟨reason, hname⟩ := h.reason text htext
      refine ⟨some reason, ?_, fun _ => hunknown.1 (h.unknown (by rw [htext]; rfl))⟩
      rw [Option.elim_some, hname, GiftCardUsageReason.byName_name]
      rfl
  refine ⟨_, by rw [GiftCard.recordedUsage, hbyName, hreason]; rfl, ?_⟩
  have hspent := lt_of_le_of_lt h.spent h.verified
  have hids : ∀ id ∈ evidence.spendingTxids.map ofBytes, isTxid id := by
    simpa using h.spending
  have hfinal : status = .used → Int64.ofNat evidence.spentHeight ≠ 0 ∧
      ¬ Int64.ofNat evidence.verifiedHeight < Int64.ofNat evidence.spentHeight + 5 ∧
        evidence.spendingTxids.map ofBytes ≠ [] := by
    intro hstatus
    obtain ⟨hpos, hdeep, hne⟩ := h.used (hused.2 hstatus)
    refine ⟨fun hzero => ?_, fun hlt => ?_, by simpa using hne⟩
    · have hlt := (ofNat_lt_ofNat (a := 0) (by decide) hspent).2 hpos
      rw [hzero] at hlt
      exact absurd hlt (by decide)
    · have hsum : Int64.ofNat evidence.spentHeight + 5 = .ofNat (evidence.spentHeight + 5) :=
        (Int64.ofNat_add evidence.spentHeight 5).symm
      rw [hsum, ofNat_lt_ofNat h.verified (hdeep.trans_lt h.verified)] at hlt
      omega
  have hdelete : evidence.canDelete = true → status = .used := fun hdelete =>
    hused.1 (h.canDelete hdelete)
  simp only [GiftCardUsage.isInconsistent, Bool.or_eq_true, Bool.and_eq_true, decide_eq_true_eq,
    not_or, not_and, Bool.or_false, Bool.false_eq_true, List.any_eq_true, Bool.not_eq_true',
    Option.isNone_some, or_false, not_false_eq_true, false_and]
  grind [not_ofNat_neg h.verified, not_ofNat_neg hspent]

/-- Coherent evidence is stored and read back. -/
theorem GiftCardUsageEvidence.Coherent.fromJson (hP : P.FaithfulTime)
    {evidence : GiftCardUsageEvidence} (h : evidence.Coherent) {accountUuid : CodeUnits}
    (haccount : accountUuid ≠ []) (checkedAt : Time) :
    ∃ usage, GiftCard.recordedUsage evidence accountUuid checkedAt = some usage ∧
      GiftCardUsage.fromJson P (usage.toJson P) = .ok (usage.utc P) := by
  obtain ⟨usage, hrecorded, hconsistent⟩ := h.recordedUsage haccount checkedAt
  exact ⟨usage, hrecorded, (GiftCardUsage.fromJson_toJson hP).2 ⟨hconsistent, rfl⟩⟩

/-! ## The evidence -/

/-- Usage evidence says what happened, further rows do not take it back, and it is stored. -/
theorem inspectConnection_evidence (hP : P.FaithfulTime) (F : FirstBy (Prod.snd : Bytes × ℕ → ℕ))
    {db : ObserverDb} {uuid : Bytes} {account : ℕ}
    (haccount : (db.accounts.find? (·.2 = uuid)).map Prod.fst = some account)
    {ids : List (List Char)} (hids : ∀ id ∈ ids, IsTxid id) (expected : ℕ) :
    ∃ evidence, inspectConnection F db uuid ([','].intercalate ids) expected = .ok evidence ∧
      evidence.verifiedHeight = verifiedHeight db ∧
      (db.ScannedTo (verifiedHeight db) ∧ ∀ n, db.ScannedTo n → n ≤ verifiedHeight db) ∧
      (evidence.status = ascii "used" ↔
        IsUsed db (verifiedHeight db) ids.toFinset expected (receivedRows db account)) ∧
      (evidence.canDelete ↔ evidence.status = ascii "used" ∧
        ∀ row ∈ receivedRows db account, Settled db (verifiedHeight db) row.1) ∧
      -- Once a card is used, it stays so.
      (evidence.status = ascii "used" → ∀ (more : FurtherRows db ids.toFinset) (blocks scanQueue),
        verifiedHeight db ≤ verifiedHeight { more.insert with blocks, scanQueue } →
          ∃ later, inspectConnection F { more.insert with blocks, scanQueue } uuid
            ([','].intercalate ids) expected = .ok later ∧ later.status = ascii "used") ∧
      (∀ more : TopUp db ids.toFinset, ∃ canDelete,
        inspectConnection F more.insert uuid ([','].intercalate ids) expected =
          .ok { evidence with canDelete }) ∧
      ∀ lookup reported, inspectGiftCardUsage F db uuid ([','].intercalate ids) expected lookup =
          .ok reported →
        reported.status = evidence.status ∧ reported.canDelete = evidence.canDelete ∧
        ∀ (accountUuid : CodeUnits) (checkedAt : Time), accountUuid ≠ [] →
          ∃ usage, recordedUsage reported accountUuid checkedAt = some usage ∧
            GiftCardUsage.fromJson P (usage.toJson P) = .ok (usage.utc P) := by
  have hinspect : ∀ db' : ObserverDb, db'.accounts = db.accounts →
      inspectConnection F db' uuid ([','].intercalate ids) expected =
        .ok ((GiftCard.tally F db' (verifiedHeight db') ids.toFinset
          (receivedRows db' account)).evidence (verifiedHeight db') ids.toFinset expected) := by
    intro db' haccounts
    rw [inspectConnection, haccounts, haccount, expectedIds_intercalate hids]
    rfl
  have hdescribes : ∀ db' : ObserverDb, (GiftCard.tally F db' (verifiedHeight db') ids.toFinset
      (receivedRows db' account)).Describes db' (verifiedHeight db') ids.toFinset
        (receivedRows db' account) := fun db' => tally_describes (verifiedHeight_lt db') _
  refine ⟨_, hinspect db rfl, rfl, scannedTo_verifiedHeight db, (hdescribes db).used_iff, ?_, ?_,
    ?_, ?_⟩
  · rw [(hdescribes db).canDelete_iff, (hdescribes db).used_iff]
  · intro hused more blocks scanQueue hle
    refine ⟨_, hinspect _ rfl, (hdescribes _).used_iff.2 ?_⟩
    obtain ⟨further, hrows, hfurther⟩ := more.receivedRows_insert account
    change IsUsed _ _ _ _ (receivedRows more.insert account)
    rw [hrows]
    exact ((hdescribes db).used_iff.1 hused).mono hle (List.subset_append_left _ _)
      (List.subset_append_left _ _) hfurther
  · intro more
    have hfunding : (tally F db (verifiedHeight db) ids.toFinset
        (receivedRows db account)).SameFunding (tally F more.insert (verifiedHeight db) ids.toFinset
          (receivedRows more.insert account)) := more.tally_insert account
    obtain ⟨canDelete, hevidence⟩ := hfunding.evidence expected
    refine ⟨canDelete, ?_⟩
    rw [hinspect more.insert rfl]
    exact congrArg Except.ok hevidence
  · intro lookup reported hreported
    have hcoherent := coherent_inspectGiftCardUsage hreported
    rw [inspectGiftCardUsage, hinspect db rfl, ok_bind] at hreported
    refine ⟨?_, ?_, fun accountUuid checkedAt hne => hcoherent.fromJson hP hne checkedAt⟩
    all_goals
      split_ifs at hreported
      · simp only [bind_eq_ok, pure_eq_ok] at hreported
        obtain ⟨heights, -, reason, -, rfl⟩ := hreported
        rfl
      · rw [← pure_eq_ok.1 hreported]

/-! ## A card that was used -/

section Sample

/-- The points in time of ten seconds. -/
def sampleRecordPackages : RecordPackages ℤ (Fin 10) where
  regtestEnabled := false
  host := literal "sybil.cash"
  isFinite _ := true
  isNegative x := x < 0
  toDouble n := n.toInt
  equalsInt x n := x = n.toInt
  jsonEncode _ := none
  jsonDecode _ := none
  utf8Encode := toBytes
  utf8Decode bytes := some (ofBytes bytes)
  base64Decode _ := none
  tryParseUri _ := none
  tryParseInt _ := none
  tryParseDateTime text := (List.finRange 10).find? fun t =>
    literal "1970-01-01T00:00:0" ++ [0x30 + UInt16.ofNat t] ++ literal ".000Z" = text
  characters := List.length
  toLowerCase := id
  fromPhrase _ := none
  fromEntropy _ := none
  toUtc := id
  toIso8601String t :=
    literal "1970-01-01T00:00:0" ++ [0x30 + UInt16.ofNat t] ++ literal ".000Z"

/-- The first of the least entries. -/
def firstBy (α : Type) (key : α → ℕ) : FirstBy key where
  pick := List.argmin key
  mem := List.argmin_mem
  le h _ hb := List.le_of_mem_argmin hb h
  eq_nil := List.argmin_eq_none.1

/-- The ids of two fundings, one in wire order and one in storage order. -/
def sampleIds : List (List Char) :=
  [List.replicate 32 'b' ++ List.replicate 32 'a', List.replicate 32 'D' ++ List.replicate 32 'e']

/-- Two outputs that one transaction spends; the blocks from 108 on are still to be scanned. -/
def sampleDb : ObserverDb where
  accounts := [(7, [1])]
  blocks := [110]
  scanQueue := [⟨108, 20⟩]
  transactions := [
    ⟨1, ⟨List.replicate 16 0xaa ++ List.replicate 16 0xbb, rfl⟩, some 100⟩,
    ⟨2, ⟨List.replicate 16 0xdd ++ List.replicate 16 0xee, rfl⟩, some 101⟩,
    ⟨3, ⟨List.replicate 32 0xcc, rfl⟩, some 102⟩]
  receivedOutputs := [⟨7, 3, 1, 6000, 1⟩, ⟨7, 2, 1, 4000, 2⟩]
  outputSpends := [⟨3, 1, 3⟩, ⟨2, 1, 3⟩]

theorem sampleDb_isUsed :
    IsUsed sampleDb (verifiedHeight sampleDb) sampleIds.toFinset 10000
      (receivedRows sampleDb 7) where
  pos := by decide
  observed := by decide
  settled := by decide
  covered := by decide

theorem isTxid_sampleIds : ∀ id ∈ sampleIds, IsTxid id := by
  simp only [sampleIds, List.forall_mem_cons, List.not_mem_nil, IsEmpty.forall_iff, implies_true,
    and_true]
  exact ⟨⟨by decide, List.all_iff_forall_prop.1 (by decide)⟩, by decide,
    List.all_iff_forall_prop.1 (by decide)⟩

/-- A transparent output of another transaction. -/
def sampleTopUp : TopUp sampleDb sampleIds.toFinset where
  transactions := [⟨4, ⟨List.replicate 32 0x44, rfl⟩, some 103⟩]
  outputs := [⟨7, 0, 1, 500, 4⟩]
  spends := []
  received_ne := by decide
  not_funding := by decide
  spends_ne := by decide
  unspent := nofun

theorem sampleRecordPackages_faithfulTime : sampleRecordPackages.FaithfulTime where
  tryParseDateTime_toUtc := by decide
  toUtc_toUtc _ := rfl

end Sample

/-- A card of two fundings that were spent six blocks ago is used, and its account may be deleted
until the card is topped up. -/
theorem inspectConnection_evidence_sample :
    ∃ evidence, inspectConnection (firstBy _ _) sampleDb [1] ([','].intercalate sampleIds) 10000 =
        .ok evidence ∧
      evidence.status = ascii "used" ∧ evidence.canDelete ∧
      inspectConnection (firstBy _ _) sampleTopUp.insert [1] ([','].intercalate sampleIds) 10000 =
        .ok { evidence with canDelete := false } := by
  obtain ⟨evidence, hinspect, -, -, hused, hdelete, -, htopUp, -⟩ :=
    @inspectConnection_evidence _ _ _ sampleRecordPackages_faithfulTime (firstBy _ _) sampleDb [1] 7
      (by decide) sampleIds isTxid_sampleIds 10000
  have hstatus := hused.2 sampleDb_isUsed
  refine ⟨evidence, hinspect, hstatus, hdelete.2 ⟨hstatus, by decide⟩, ?_⟩
  obtain ⟨canDelete, htopped⟩ := htopUp sampleTopUp
  obtain ⟨later, hlater, -, -, -, hkeep, -⟩ :=
    @inspectConnection_evidence _ _ _ sampleRecordPackages_faithfulTime (firstBy _ _)
      sampleTopUp.insert [1] 7 (by decide) sampleIds isTxid_sampleIds 10000
  obtain rfl := Except.ok.inj (hlater.symm.trans htopped)
  -- The output that topped the card up was not spent.
  have hunspent : ¬ ∀ row ∈ receivedRows sampleTopUp.insert 7,
      Settled sampleTopUp.insert (verifiedHeight sampleTopUp.insert) row.1 := by decide
  have hcanDelete : canDelete = false := Bool.eq_false_iff.2 fun h => hunspent (hkeep.1 h).2
  rw [htopped, hcanDelete]

end VizorWallet.GiftCard
