import Mathlib.Data.Bool.AllAny
import VizorWallet.GiftCard.Tracking

/-!
# Usage evidence is final

A card is reported as used exactly when every listed transaction funded it, nothing of the funding
is pending, and each funding output was spent at a depth that does not change. Further rows do not
take that back, and rows that do not concern the funding leave all that is said of it.

## Main definitions

* `Names`, `IsFunding`, `MinedWithin`, `Settled` — the facts about outputs that count.
* `Tally.Describes` — a tally says these facts of the rows it was gathered from.
* `IsUsed` — the card was used.
* `FurtherRows`, `TopUp` — what is added to a database.

## Main results

* `tally_describes` — the loop gathers what it should.
* `scannedTo_verifiedHeight` — the height up to which evidence counts.
* `Tally.Describes.used_iff`, `Tally.Describes.canDelete_iff` — what the evidence says.
* `IsUsed.mono`, `TopUp.tally_insert` — further rows.
-/

namespace VizorWallet.GiftCard

variable {F : FirstBy (Prod.snd : Bytes × ℕ → ℕ)} {db : ObserverDb} {height : ℕ}
  {ids : Finset (List Char)}

/-! ## Transaction ids -/

/-- A text is a transaction id in wire or in storage byte order. -/
def Names (id : List Char) (txid : Bytes) : Prop :=
  Hex.decode (bytesOf id) = some txid ∨ Hex.decode (bytesOf id) = some txid.reverse

instance (id : List Char) (txid : Bytes) : Decidable (Names id txid) := by
  unfold Names
  infer_instance

theorem matchesId_encode {txid : Bytes} {id : List Char} :
    matchesId (Hex.encode txid) id ↔ Names id txid := by
  have hwire : eqIgnoreAsciiCase (Hex.encode txid) (bytesOf id) ↔
      Hex.decode (bytesOf id) = some txid := by
    rw [Hex.decode_eq_some, eqIgnoreAsciiCase, decide_eq_true_eq, Hex.map_lower_encode]
    exact eq_comm
  have hstorage : ((Hex.decode (bytesOf id)).any fun bytes =>
      eqIgnoreAsciiCase (Hex.encode bytes.reverse) (Hex.encode txid)) ↔
        Hex.decode (bytesOf id) = some txid.reverse := by
    simp only [Option.any_eq_true, eqIgnoreAsciiCase, Hex.map_lower_encode, decide_eq_true_eq,
      Hex.encode_injective.eq_iff]
    constructor
    · rintro ⟨bytes, hbytes, rfl⟩
      rw [hbytes, List.reverse_reverse]
    · exact fun h => ⟨_, h, List.reverse_reverse txid⟩
  rw [matchesId, Bool.or_eq_true, hwire, hstorage, Names]

/-- 64 hexadecimal digits. -/
def IsTxid (id : List Char) : Prop :=
  id.length = 64 ∧ ∀ c ∈ id, c ∈ "0123456789abcdefABCDEF".toList

theorem trim_of_forall {text : List Char} (h : ∀ c ∈ text, Ledger.isWhitespace c = false) :
    trim text = text := by
  have hdrop : text.dropWhile Ledger.isWhitespace = text := by
    cases text with
    | nil => rfl
    | cons c rest => rw [List.dropWhile_cons_of_neg (by simp [h c List.mem_cons_self])]
  rw [trim, hdrop, List.rdropWhile_eq_self_iff]
  intro hne
  simp [h _ (List.getLast_mem hne)]

/-- The ids of a list of 64-digit ids are the listed ones. -/
theorem expectedIds_intercalate {ids : List (List Char)} (hids : ∀ id ∈ ids, IsTxid id) :
    expectedIds ([','].intercalate ids) = ids.toFinset := by
  have hplain : ∀ c ∈ "0123456789abcdefABCDEF".toList,
      Ledger.isWhitespace c = false ∧ c ≠ ',' := List.all_iff_forall_prop.1 (by decide)
  have htrim : ids.map trim = ids := by
    refine (List.map_congr_left fun id hid => ?_).trans ids.map_id
    exact trim_of_forall fun c hc => (hplain c ((hids id hid).2 c hc)).1
  have hne : ids.filter (· ≠ []) = ids := by
    refine List.filter_eq_self.2 fun id hid => ?_
    have hlength := (hids id hid).1
    rw [decide_eq_true_eq]
    rintro rfl
    cases hlength
  rw [expectedIds]
  by_cases hnil : ids = []
  · subst hnil
    rfl
  · rw [List.splitOn_intercalate ',' (fun id hid hc => (hplain ',' ((hids id hid).2 ',' hc)).2 rfl)
      hnil, htrim, hne]

/-! ## Outputs and their spends -/

/-- An output of a listed transaction that is not transparent. -/
def IsFunding (ids : Finset (List Char)) (row : ReceivedOutput × TransactionRow) : Prop :=
  row.1.pool ≠ 0 ∧ ∃ id ∈ ids, Names id row.2.txid.1

def MinedWithin (height : ℕ) (tx : TransactionRow) : Prop :=
  ∃ mined ∈ tx.minedHeight, 1 ≤ mined ∧ mined ≤ height

/-- A mined spend of the output has six confirmations. -/
def Settled (db : ObserverDb) (height : ℕ) (output : ReceivedOutput) : Prop :=
  ∃ spend ∈ db.outputSpends, ∃ tx ∈ db.transactions, spend.pool = output.pool ∧
    spend.receivedOutputId = output.idWithinPoolTable ∧ tx.idTx = spend.transactionId ∧
    ∃ mined ∈ tx.minedHeight, 1 ≤ mined ∧ mined + 5 ≤ height

instance (ids : Finset (List Char)) (row : ReceivedOutput × TransactionRow) :
    Decidable (IsFunding ids row) := by
  unfold IsFunding
  infer_instance

instance (height : ℕ) (tx : TransactionRow) : Decidable (MinedWithin height tx) := by
  unfold MinedWithin
  infer_instance

instance (db : ObserverDb) (height : ℕ) (output : ReceivedOutput) :
    Decidable (Settled db height output) := by
  unfold Settled
  infer_instance

theorem mem_minedSpends {output : ReceivedOutput} {entry : Bytes × ℕ} :
    entry ∈ minedSpends db height output ↔
      ∃ spend ∈ db.outputSpends, ∃ tx ∈ db.transactions, spend.pool = output.pool ∧
        spend.receivedOutputId = output.idWithinPoolTable ∧ tx.idTx = spend.transactionId ∧
        entry.2 ∈ tx.minedHeight ∧ 1 ≤ entry.2 ∧ entry.2 ≤ height ∧
        entry.1 = Hex.encode tx.txid.1 := by
  obtain ⟨id, mined⟩ := entry
  simp only [minedSpends, List.mem_flatMap, List.mem_filter, List.mem_filterMap, decide_eq_true_eq,
    Option.map_eq_some_iff, Option.filter_eq_some_iff, Prod.mk.injEq, Option.mem_def]
  grind

theorem verifiedHeight_lt (db : ObserverDb) : verifiedHeight db < 2 ^ 63 := by
  refine lt_of_le_of_lt (min_le_left _ _) ?_
  cases h : highestBlock db with
  | none => decide
  | some highest =>
    obtain ⟨block, -, rfl⟩ := List.mem_map.1 (List.max?_mem h)
    exact block.2

/-- The earliest spend that is mined tells whether the output is settled. -/
theorem settled_iff (hheight : height < 2 ^ 63) {output : ReceivedOutput} :
    (F.pick (minedSpends db height output)).any (fun spend => saturatingAdd spend.2 5 ≤ height) ↔
      Settled db height output := by
  have hdepth : ∀ mined, saturatingAdd mined 5 ≤ height ↔ mined + 5 ≤ height := by
    intro mined
    unfold saturatingAdd u64Size
    omega
  simp only [Option.any_eq_true, decide_eq_true_eq, hdepth]
  constructor
  · rintro ⟨entry, hpick, hdeep⟩
    obtain ⟨spend, hspend, tx, htx, hpool, hid, hjoin, hmined, hpos, -, -⟩ :=
      mem_minedSpends.1 (F.mem hpick)
    exact ⟨spend, hspend, tx, htx, hpool, hid, hjoin, entry.2, hmined, hpos, hdeep⟩
  · rintro ⟨spend, hspend, tx, htx, hpool, hid, hjoin, mined, hmined, hpos, hdeep⟩
    have hmem : (Hex.encode tx.txid.1, mined) ∈ minedSpends db height output :=
      mem_minedSpends.2 ⟨spend, hspend, tx, htx, hpool, hid, hjoin, hmined, hpos, by omega, rfl⟩
    cases hpick : F.pick (minedSpends db height output) with
    | none =>
      rw [F.eq_nil hpick] at hmem
      cases hmem
    | some entry =>
      have hle := F.le hpick _ hmem
      exact ⟨entry, rfl, by simp only at hle; omega⟩

/-! ## The tally -/

theorem mem_insertText {text other : Bytes} {texts : List Bytes} :
    other ∈ insertText text texts ↔ other = text ∨ other ∈ texts := by
  unfold insertText
  split_ifs with h
  · grind
  · simp [List.mem_orderedInsert]

theorem saturatingAdd_min (total value : ℕ) :
    saturatingAdd (min total (u64Size - 1)) value = min (total + value) (u64Size - 1) := by
  unfold saturatingAdd
  omega

/-- A funding output that is mined. -/
def Counted (height : ℕ) (ids : Finset (List Char))
    (row : ReceivedOutput × TransactionRow) : Prop :=
  IsFunding ids row ∧ MinedWithin height row.2

instance (height : ℕ) (ids : Finset (List Char)) (row : ReceivedOutput × TransactionRow) :
    Decidable (Counted height ids row) := by
  unfold Counted
  infer_instance

/-- The saturating sum of the funding outputs that are mined. -/
def countedValue (height : ℕ) (ids : Finset (List Char))
    (rows : List (ReceivedOutput × TransactionRow)) : ℕ :=
  min ((rows.filter (Counted height ids ·)).map (·.1.value)).sum (u64Size - 1)

/-- What a tally says of the rows it was gathered from. -/
structure Tally.Describes (db : ObserverDb) (height : ℕ) (ids : Finset (List Char))
    (rows : List (ReceivedOutput × TransactionRow)) (tally : Tally) : Prop where
  found : ∀ id, id ∈ tally.found ↔ id ∈ ids ∧ ∃ row ∈ rows, row.1.pool ≠ 0 ∧
    Names id row.2.txid.1 ∧ MinedWithin height row.2
  value : tally.value = countedValue height ids rows
  allSettled : tally.allSettled ↔
    ∀ row ∈ rows, IsFunding ids row → MinedWithin height row.2 ∧ Settled db height row.1
  remaining : tally.remaining ↔ ∃ row ∈ rows, ¬ Settled db height row.1
  anySpent : ∀ row ∈ rows, Counted height ids row → Settled db height row.1 → tally.anySpent
  spent : tally.anySpent → 1 ≤ tally.spentHeight ∧ tally.spending ≠ []
  deep : tally.allSettled → tally.spentHeight = 0 ∨ tally.spentHeight + 5 ≤ height
  shallow : tally.spentHeight ≤ height
  spending : ∀ text ∈ tally.spending, ∃ tx ∈ db.transactions, text = Hex.encode tx.txid.1

theorem describes_nil (db : ObserverDb) (height : ℕ) (ids : Finset (List Char)) :
    ({} : Tally).Describes db height ids [] where
  found := by simp
  value := by simp [countedValue]
  allSettled := by simp
  remaining := by simp
  anySpent := by simp
  spent := by simp
  deep := by simp
  shallow := Nat.zero_le _
  spending := by simp

variable {rows : List (ReceivedOutput × TransactionRow)} {tally : Tally}
  {row : ReceivedOutput × TransactionRow}

/-- Whether a row is a funding output, as it is tested. -/
theorem isFunding_iff {row : ReceivedOutput × TransactionRow} :
    (row.1.pool ≠ 0 ∧ ∃ id ∈ ids, matchesId (Hex.encode row.2.txid.1) id) ↔ IsFunding ids row := by
  simp only [matchesId_encode, IsFunding]

theorem minedWithin_iff {tx : TransactionRow} :
    tx.minedHeight.any (fun mined => 0 < mined ∧ mined ≤ height) ↔ MinedWithin height tx := by
  simp only [Option.any_eq_true, decide_eq_true_eq, MinedWithin, Option.mem_def]
  exact Iff.rfl

theorem countedValue_append (rows : List (ReceivedOutput × TransactionRow))
    (row : ReceivedOutput × TransactionRow) :
    countedValue height ids (rows ++ [row]) =
      if Counted height ids row then saturatingAdd (countedValue height ids rows) row.1.value
      else countedValue height ids rows := by
  simp only [countedValue, List.filter_append, List.filter_singleton, List.map_append,
    List.sum_append, saturatingAdd_min]
  split_ifs with h <;> simp [h]

/-- The rows that show a listed transaction. -/
theorem exists_append_iff {id : List Char} (hid : id ∈ ids) :
    (∃ other ∈ rows ++ [row], other.1.pool ≠ 0 ∧ Names id other.2.txid.1 ∧
        MinedWithin height other.2) ↔
      (∃ other ∈ rows, other.1.pool ≠ 0 ∧ Names id other.2.txid.1 ∧ MinedWithin height other.2) ∨
        Counted height ids row ∧ Names id row.2.txid.1 := by
  simp only [List.mem_append, List.mem_singleton, or_and_right, exists_or, exists_eq_left]
  refine or_congr_right ?_
  constructor
  · rintro ⟨hpool, hnames, hmined⟩
    exact ⟨⟨⟨hpool, id, hid, hnames⟩, hmined⟩, hnames⟩
  · rintro ⟨⟨⟨hpool, -⟩, hmined⟩, hnames⟩
    exact ⟨hpool, hnames, hmined⟩

/-- An output that is not counted. -/
theorem Tally.Describes.uncounted (h : tally.Describes db height ids rows)
    (hcounted : ¬ Counted height ids row) {remaining allSettled : Bool}
    (hremaining : remaining = true ↔ tally.remaining = true ∨ ¬ Settled db height row.1)
    (hall : allSettled = true ↔ tally.allSettled = true ∧ ¬ IsFunding ids row) :
    { tally with remaining, allSettled }.Describes db height ids (rows ++ [row]) where
  found id := by
    rw [h.found id]
    refine and_congr_right fun hid => ?_
    rw [exists_append_iff hid]
    exact ⟨.inl, fun hrow => hrow.resolve_right fun hnew => hcounted hnew.1⟩
  value := by
    rw [countedValue_append, if_neg hcounted]
    exact h.value
  allSettled := by
    rw [List.forall_mem_append, List.forall_mem_singleton, hall, h.allSettled]
    refine and_congr_right fun _ => ⟨fun hnot hrow => absurd hrow hnot, fun hrow hfunding => ?_⟩
    exact hcounted ⟨hfunding, (hrow hfunding).1⟩
  remaining := by
    simp only [hremaining, h.remaining, List.mem_append, List.mem_singleton, or_and_right,
      exists_or, exists_eq_left]
  anySpent := by
    rw [List.forall_mem_append, List.forall_mem_singleton]
    exact ⟨h.anySpent, fun hrow => absurd hrow hcounted⟩
  spent := h.spent
  deep hsettled := h.deep (hall.1 hsettled).1
  shallow := h.shallow
  spending := h.spending

/-- A counted output without a mined spend. -/
theorem Tally.Describes.unspent (h : tally.Describes db height ids rows)
    (hcounted : Counted height ids row) {remaining : Bool}
    (hremaining : remaining = true ↔ tally.remaining = true ∨ ¬ Settled db height row.1)
    (hsettled : ¬ Settled db height row.1) :
    { tally with
      remaining
      found := tally.found ∪ ids.filter (matchesId (Hex.encode row.2.txid.1) ·)
      value := saturatingAdd tally.value row.1.value
      allSettled := false }.Describes db height ids (rows ++ [row]) where
  found id := by
    rw [Finset.mem_union, Finset.mem_filter, matchesId_encode, h.found id, ← and_or_left]
    refine and_congr_right fun hid => ?_
    rw [exists_append_iff hid, and_iff_right hcounted]
  value := by
    rw [countedValue_append, if_pos hcounted, h.value]
  allSettled := by
    rw [List.forall_mem_append, List.forall_mem_singleton]
    simp [hcounted.1, hsettled]
  remaining := by
    simp only [hremaining, h.remaining, List.mem_append, List.mem_singleton, or_and_right,
      exists_or, exists_eq_left]
  anySpent := by
    rw [List.forall_mem_append, List.forall_mem_singleton]
    exact ⟨h.anySpent, fun _ hrow => absurd hrow hsettled⟩
  spent := h.spent
  deep := nofun
  shallow := h.shallow
  spending := h.spending

/-- A counted output with a mined spend. -/
theorem Tally.Describes.spend (h : tally.Describes db height ids rows)
    (hcounted : Counted height ids row) {remaining settled : Bool}
    (hremaining : remaining = true ↔ tally.remaining = true ∨ ¬ Settled db height row.1)
    (hsettled : settled = true ↔ Settled db height row.1) {id : Bytes} {mined : ℕ}
    (hpos : 1 ≤ mined) (hmined : mined ≤ height) (hdeep : settled = true → mined + 5 ≤ height)
    (hid : ∃ tx ∈ db.transactions, id = Hex.encode tx.txid.1) :
    { tally with
      remaining
      found := tally.found ∪ ids.filter (matchesId (Hex.encode row.2.txid.1) ·)
      value := saturatingAdd tally.value row.1.value
      allSettled := tally.allSettled && settled
      anySpent := true
      spentHeight := max tally.spentHeight mined
      spending := insertText id tally.spending }.Describes db height ids (rows ++ [row]) where
  found id := by
    rw [Finset.mem_union, Finset.mem_filter, matchesId_encode, h.found id, ← and_or_left]
    refine and_congr_right fun hid => ?_
    rw [exists_append_iff hid, and_iff_right hcounted]
  value := by
    rw [countedValue_append, if_pos hcounted, h.value]
  allSettled := by
    rw [List.forall_mem_append, List.forall_mem_singleton, Bool.and_eq_true, h.allSettled, hsettled]
    refine and_congr_right fun _ => ⟨fun hrow _ => ⟨hcounted.2, hrow⟩, fun hrow => ?_⟩
    exact (hrow hcounted.1).2
  remaining := by
    simp only [hremaining, h.remaining, List.mem_append, List.mem_singleton, or_and_right,
      exists_or, exists_eq_left]
  anySpent _ _ _ _ := rfl
  spent _ := ⟨hpos.trans (le_max_right _ _),
    List.ne_nil_of_mem (mem_insertText.2 (.inl rfl))⟩
  deep hall := by
    obtain ⟨hold, hnew⟩ := (Bool.and_eq_true _ _).mp hall
    have hlatest := hdeep hnew
    have hearlier := h.deep hold
    dsimp only
    omega
  shallow := max_le h.shallow hmined
  spending text htext := by
    obtain rfl | hold := mem_insertText.1 htext
    · exact hid
    · exact h.spending text hold

/-- One row adds to a tally what it says. -/
theorem Tally.Describes.step (hheight : height < 2 ^ 63) (h : tally.Describes db height ids rows) :
    (tally.step F db height ids row).Describes db height ids (rows ++ [row]) := by
  have hsettled : (F.pick (minedSpends db height row.1)).any (fun spend =>
      saturatingAdd spend.2 5 ≤ height) ↔ Settled db height row.1 := settled_iff hheight
  have hremaining : (tally.remaining || !(F.pick (minedSpends db height row.1)).any fun spend =>
      saturatingAdd spend.2 5 ≤ height) = true ↔
        tally.remaining = true ∨ ¬ Settled db height row.1 := by
    rw [Bool.or_eq_true, Bool.not_eq_true', ← hsettled, Bool.not_eq_true]
  unfold Tally.step
  simp only [isFunding_iff, minedWithin_iff]
  by_cases hfunding : IsFunding ids row
  · by_cases hmined : MinedWithin height row.2
    · rw [if_neg (not_not.2 hfunding), if_neg (not_not.2 hmined)]
      cases hpick : F.pick (minedSpends db height row.1) with
      | none =>
        rw [hpick] at hsettled hremaining
        have hnot : ¬ Settled db height row.1 := fun hrow => nomatch hsettled.2 hrow
        simpa using h.unspent ⟨hfunding, hmined⟩ hremaining hnot
      | some entry =>
        rw [hpick] at hsettled hremaining
        obtain ⟨spend, hspend, tx, htx, hpool, hid, hjoin, hheld, hpos, hle, htext⟩ :=
          mem_minedSpends.1 (F.mem hpick)
        refine h.spend ⟨hfunding, hmined⟩ hremaining hsettled hpos hle (fun hdeep => ?_)
          ⟨tx, htx, htext⟩
        rw [Option.any_some, decide_eq_true_eq] at hdeep
        unfold saturatingAdd u64Size at hdeep
        omega
    · rw [if_neg (not_not.2 hfunding), if_pos hmined]
      exact h.uncounted (fun hcounted => hmined hcounted.2) hremaining (by simp [hfunding])
  · rw [if_pos hfunding]
    exact h.uncounted (fun hcounted => hfunding hcounted.1) hremaining (by simp [hfunding])

theorem tally_concat (rows : List (ReceivedOutput × TransactionRow))
    (row : ReceivedOutput × TransactionRow) :
    GiftCard.tally F db height ids (rows ++ [row]) =
      (GiftCard.tally F db height ids rows).step F db height ids row := by
  rw [GiftCard.tally, List.foldl_append]
  rfl

/-- The loop gathers what its rows say. -/
theorem tally_describes (hheight : height < 2 ^ 63)
    (rows : List (ReceivedOutput × TransactionRow)) :
    (GiftCard.tally F db height ids rows).Describes db height ids rows := by
  induction rows using List.reverseRecOn with
  | nil => exact describes_nil db height ids
  | append_singleton rows row ih =>
    rw [tally_concat]
    exact ih.step hheight

/-! ## What the evidence says -/

/-- Every listed transaction funded the card, the funding is mined and spent for good. -/
structure IsUsed (db : ObserverDb) (height : ℕ) (ids : Finset (List Char)) (expected : ℕ)
    (rows : List (ReceivedOutput × TransactionRow)) : Prop where
  pos : 0 < expected
  observed : ∀ id ∈ ids, ∃ row ∈ rows, row.1.pool ≠ 0 ∧ Names id row.2.txid.1 ∧
    MinedWithin height row.2
  settled : ∀ row ∈ rows, IsFunding ids row → MinedWithin height row.2 ∧ Settled db height row.1
  covered : expected ≤ min ((rows.filter (IsFunding ids ·)).map (·.1.value)).sum (u64Size - 1)

theorem Tally.status_eq_used {funded : Bool} :
    tally.status funded = ascii "used" ↔ funded ∧ tally.allSettled := by
  have hunknown : ascii "unknown" ≠ ascii "used" := by decide
  have hdetected : ascii "spendDetected" ≠ ascii "used" := by decide
  have hunused : ascii "unused" ≠ ascii "used" := by decide
  unfold Tally.status
  split_ifs with h₁ h₂ h₃ <;> simp_all

/-- The ids that were found are the listed ones when each was. -/
theorem Tally.Describes.found_eq (h : tally.Describes db height ids rows) :
    tally.found = ids ↔ ∀ id ∈ ids, ∃ row ∈ rows, row.1.pool ≠ 0 ∧ Names id row.2.txid.1 ∧
      MinedWithin height row.2 := by
  refine ⟨fun hfound id hid => ((h.found id).1 (hfound ▸ hid)).2, fun hall => ?_⟩
  refine Finset.ext fun id => ?_
  rw [h.found id]
  exact and_iff_left_of_imp (hall id)

theorem countedValue_eq (hall : ∀ row ∈ rows, IsFunding ids row → MinedWithin height row.2) :
    countedValue height ids rows =
      min ((rows.filter (IsFunding ids ·)).map (·.1.value)).sum (u64Size - 1) := by
  have hfilter : rows.filter (Counted height ids ·) = rows.filter (IsFunding ids ·) := by
    refine List.filter_congr fun row hrow => ?_
    rw [decide_eq_decide]
    exact and_iff_left_of_imp (hall row hrow)
  rw [countedValue, hfilter]

/-- A card is reported as used exactly when it is. -/
theorem Tally.Describes.used_iff (h : tally.Describes db height ids rows) {expected : ℕ} :
    (tally.evidence height ids expected).status = ascii "used" ↔
      IsUsed db height ids expected rows := by
  rw [Tally.evidence, Tally.status_eq_used, h.allSettled, Tally.funded, decide_eq_true_eq,
    h.found_eq, h.value]
  constructor
  · rintro ⟨⟨-, hobserved, hpos, hcovered⟩, hsettled⟩
    rw [countedValue_eq fun row hrow hfunding => (hsettled row hrow hfunding).1] at hcovered
    exact ⟨hpos, hobserved, hsettled, hcovered⟩
  · intro hused
    have hvalue := countedValue_eq fun row hrow hfunding => (hused.settled row hrow hfunding).1
    refine ⟨⟨?_, hused.observed, hused.pos, hvalue ▸ hused.covered⟩, hused.settled⟩
    rintro rfl
    -- Without ids nothing funds the card, and the expected amount is positive.
    have hnone : rows.filter (IsFunding ∅ ·) = [] := by
      rw [List.filter_eq_nil_iff]
      simp [IsFunding]
    have hcovered := hused.covered
    rw [hnone] at hcovered
    have hpos := hused.pos
    simp only [List.map_nil, List.sum_nil, Nat.zero_min] at hcovered
    omega

/-- The account may be deleted when the card is used and nothing of the account is left. -/
theorem Tally.Describes.canDelete_iff (h : tally.Describes db height ids rows) {expected : ℕ} :
    (tally.evidence height ids expected).canDelete ↔
      IsUsed db height ids expected rows ∧ ∀ row ∈ rows, Settled db height row.1 := by
  have hremaining : ¬ tally.remaining = true ↔ ∀ row ∈ rows, Settled db height row.1 := by
    rw [h.remaining]
    push Not
    rfl
  have hused : (tally.evidence height ids expected).status = ascii "used" ↔
      IsUsed db height ids expected rows := h.used_iff
  rw [← hused, ← hremaining, Tally.evidence]
  simp only [decide_eq_true_eq, Bool.not_eq_true]

theorem le_highestBlock_iff {n : ℕ} (hn : 0 < n) :
    n ≤ (highestBlock db).getD 0 ↔ ∃ block ∈ db.blocks, n ≤ block.val := by
  cases h : highestBlock db with
  | none =>
    rw [highestBlock, List.max?_eq_none_iff, List.map_eq_nil_iff] at h
    simp only [Option.getD_none, h, List.not_mem_nil, false_and, exists_false, iff_false]
    omega
  | some highest =>
    rw [highestBlock, List.max?_eq_some_iff] at h
    obtain ⟨hmem, hle⟩ := h
    constructor
    · intro hn
      obtain ⟨block, hblock, rfl⟩ := List.mem_map.1 hmem
      exact ⟨block, hblock, hn⟩
    · rintro ⟨block, hblock, hn⟩
      exact hn.trans (hle _ (List.mem_map_of_mem hblock))

theorem le_firstPending_iff {n : ℕ} (hn : 0 < n) (hhighest : n ≤ (highestBlock db).getD 0) :
    n ≤ ((firstPending db).map (· - 1) <|> highestBlock db).getD 0 ↔
      ∀ range ∈ db.scanQueue, 10 < range.priority → n < range.blockRangeStart := by
  cases h : firstPending db with
  | none =>
    rw [firstPending, List.min?_eq_none_iff, List.map_eq_nil_iff, List.filter_eq_nil_iff] at h
    simp only [decide_eq_true_eq] at h
    exact iff_of_true hhighest fun range hrange hpriority => absurd hpriority (h range hrange)
  | some first =>
    rw [firstPending, List.min?_eq_some_iff] at h
    obtain ⟨hmem, hle⟩ := h
    change n ≤ first - 1 ↔ _
    constructor
    · intro hn range hrange hpriority
      have hfirst := hle range.blockRangeStart (List.mem_map_of_mem (List.mem_filter.2
        ⟨hrange, decide_eq_true hpriority⟩))
      omega
    · intro hall
      obtain ⟨range, hrange, rfl⟩ := List.mem_map.1 hmem
      obtain ⟨hqueue, hpriority⟩ := List.mem_filter.1 hrange
      have hlt := hall range hqueue (of_decide_eq_true hpriority)
      omega

/-- Blocks are known up to a height, and nothing above the priority of history is pending there. -/
def ObserverDb.ScannedTo (db : ObserverDb) (n : ℕ) : Prop :=
  n = 0 ∨ (∃ block ∈ db.blocks, n ≤ block.val) ∧
    ∀ range ∈ db.scanQueue, 10 < range.priority → n < range.blockRangeStart

/-- The verified height is the greatest height that is scanned to. -/
theorem scannedTo_verifiedHeight (db : ObserverDb) :
    db.ScannedTo (verifiedHeight db) ∧ ∀ n, db.ScannedTo n → n ≤ verifiedHeight db := by
  constructor
  · rcases Nat.eq_zero_or_pos (verifiedHeight db) with hzero | hpos
    · exact .inl hzero
    · have hhighest := min_le_left ((highestBlock db).getD 0)
        (((firstPending db).map (· - 1) <|> highestBlock db).getD 0)
      exact .inr ⟨(le_highestBlock_iff hpos).1 hhighest,
        (le_firstPending_iff hpos hhighest).1 (min_le_right _ _)⟩
  · rintro n (rfl | ⟨hle, hlt⟩)
    · exact Nat.zero_le _
    · rcases Nat.eq_zero_or_pos n with rfl | hpos
      · exact Nat.zero_le _
      · have hhighest := (le_highestBlock_iff hpos).2 hle
        exact le_min hhighest ((le_firstPending_iff hpos hhighest).2 hlt)

/-! ## Further rows -/

theorem MinedWithin.mono {height' : ℕ} (hle : height ≤ height') {tx : TransactionRow}
    (h : MinedWithin height tx) : MinedWithin height' tx := by
  obtain ⟨mined, hmined, hpos, hwithin⟩ := h
  exact ⟨mined, hmined, hpos, hwithin.trans hle⟩

theorem Settled.mono {db' : ObserverDb} {height' : ℕ} (hle : height ≤ height')
    (htransactions : db.transactions ⊆ db'.transactions)
    (hspends : db.outputSpends ⊆ db'.outputSpends) {output : ReceivedOutput}
    (h : Settled db height output) : Settled db' height' output := by
  obtain ⟨spend, hspend, tx, htx, hpool, hid, hjoin, mined, hmined, hpos, hdeep⟩ := h
  exact ⟨spend, hspends hspend, tx, htransactions htx, hpool, hid, hjoin, mined, hmined, hpos,
    hdeep.trans hle⟩

/-- A used card stays used while rows are added that fund nothing. -/
theorem IsUsed.mono {db' : ObserverDb} {height' expected : ℕ} (hle : height ≤ height')
    (htransactions : db.transactions ⊆ db'.transactions)
    (hspends : db.outputSpends ⊆ db'.outputSpends)
    {further : List (ReceivedOutput × TransactionRow)}
    (hfurther : ∀ row ∈ further, ¬ IsFunding ids row) (h : IsUsed db height ids expected rows) :
    IsUsed db' height' ids expected (rows ++ further) where
  pos := h.pos
  observed id hid := by
    obtain ⟨row, hrow, hpool, hnames, hmined⟩ := h.observed id hid
    exact ⟨row, List.mem_append_left _ hrow, hpool, hnames, hmined.mono hle⟩
  settled row hrow hfunding := by
    rcases List.mem_append.1 hrow with hrow | hrow
    · obtain ⟨hmined, hsettled⟩ := h.settled row hrow hfunding
      exact ⟨hmined.mono hle, hsettled.mono hle htransactions hspends⟩
    · exact absurd hfunding (hfurther row hrow)
  covered := by
    have hnone : further.filter (IsFunding ids ·) = [] := by
      rw [List.filter_eq_nil_iff]
      exact fun row hrow => by simpa using hfurther row hrow
    rw [List.filter_append, hnone, List.append_nil]
    exact h.covered

/-- Rows that were not there, of which no output funds the card. -/
structure FurtherRows (db : ObserverDb) (ids : Finset (List Char)) where
  transactions : List TransactionRow
  outputs : List ReceivedOutput
  spends : List OutputSpend
  received_ne : ∀ tx ∈ transactions, ∀ output ∈ db.receivedOutputs,
    tx.idTx ≠ output.transactionId
  not_funding : ∀ output ∈ outputs, ∀ tx ∈ db.transactions ++ transactions,
    tx.idTx = output.transactionId → ¬ IsFunding ids (output, tx)

def FurtherRows.insert (more : FurtherRows db ids) : ObserverDb := { db with
  transactions := db.transactions ++ more.transactions
  receivedOutputs := db.receivedOutputs ++ more.outputs
  outputSpends := db.outputSpends ++ more.spends }

theorem mem_receivedRows {account : ℕ} :
    row ∈ receivedRows db account ↔ row.1 ∈ db.receivedOutputs ∧ row.1.accountId = account ∧
      0 < row.1.value ∧ row.2 ∈ db.transactions ∧ row.2.idTx = row.1.transactionId := by
  obtain ⟨output, tx⟩ := row
  simp only [receivedRows, List.mem_flatMap, List.mem_filter, decide_eq_true_eq, List.mem_map,
    Prod.mk.injEq]
  grind

/-- The rows that were there, and rows that fund nothing. -/
theorem FurtherRows.receivedRows_insert (more : FurtherRows db ids) (account : ℕ) :
    ∃ further, receivedRows more.insert account = receivedRows db account ++ further ∧
      ∀ row ∈ further, ¬ IsFunding ids row := by
  refine ⟨receivedRows { more.insert with receivedOutputs := more.outputs } account, ?_, ?_⟩
  · have hold : ∀ output ∈ db.receivedOutputs,
        (db.transactions ++ more.transactions).filter (·.idTx = output.transactionId) =
          db.transactions.filter (·.idTx = output.transactionId) := by
      intro output houtput
      have hnone : more.transactions.filter (·.idTx = output.transactionId) = [] := by
        rw [List.filter_eq_nil_iff]
        exact fun tx htx => by simpa using more.received_ne tx htx output houtput
      rw [List.filter_append, hnone, List.append_nil]
    simp only [receivedRows, FurtherRows.insert, List.filter_append, List.flatMap_append]
    congr 1
    refine List.flatMap_congr fun output houtput => ?_
    rw [← List.filter_append, hold output (List.mem_of_mem_filter houtput)]
  · intro row hrow
    obtain ⟨houtput, -, -, htx, hjoin⟩ := mem_receivedRows.1 hrow
    exact more.not_funding row.1 houtput row.2 htx hjoin

/-- The tallies agree but for what remains. -/
def Tally.SameFunding (tally tally' : Tally) : Prop :=
  ∃ remaining, tally' = { tally with remaining }

theorem Tally.SameFunding.evidence {tally' : Tally} (h : tally.SameFunding tally')
    (expected : ℕ) :
    ∃ canDelete, tally'.evidence height ids expected =
      { tally.evidence height ids expected with canDelete } := by
  obtain ⟨remaining, rfl⟩ := h
  exact ⟨_, rfl⟩

theorem Tally.SameFunding.step_of_not {tally' : Tally} (h : tally.SameFunding tally')
    (hrow : ¬ IsFunding ids row) : tally.SameFunding (tally'.step F db height ids row) := by
  obtain ⟨remaining, rfl⟩ := h
  unfold Tally.step
  simp only [isFunding_iff]
  rw [if_pos hrow]
  exact ⟨_, rfl⟩

theorem Tally.SameFunding.step {db' : ObserverDb} {tally' : Tally} (h : tally.SameFunding tally')
    (hspends : IsFunding ids row →
      minedSpends db' height row.1 = minedSpends db height row.1) :
    (tally.step F db height ids row).SameFunding (tally'.step F db' height ids row) := by
  obtain ⟨remaining, rfl⟩ := h
  by_cases hrow : IsFunding ids row
  · unfold Tally.step
    simp only [isFunding_iff]
    rw [hspends hrow, if_neg (not_not.2 hrow), if_neg (not_not.2 hrow)]
    by_cases hmined : row.2.minedHeight.any fun mined => 0 < mined ∧ mined ≤ height
    · rw [if_neg (not_not.2 hmined), if_neg (not_not.2 hmined)]
      cases F.pick (minedSpends db height row.1) <;> exact ⟨_, rfl⟩
    · rw [if_pos hmined, if_pos hmined]
      exact ⟨_, rfl⟩
  · have hold : ∃ remaining, tally.step F db height ids row = { tally with remaining } :=
      SameFunding.step_of_not ⟨tally.remaining, rfl⟩ hrow
    obtain ⟨remaining', hold⟩ := hold
    rw [hold]
    exact SameFunding.step_of_not ⟨remaining, rfl⟩ hrow

/-- Rows of which no transaction spends an output that funds the card. -/
structure TopUp (db : ObserverDb) (ids : Finset (List Char)) extends FurtherRows db ids where
  spends_ne : ∀ tx ∈ transactions, ∀ spend ∈ db.outputSpends, tx.idTx ≠ spend.transactionId
  unspent : ∀ spend ∈ spends, ∀ output ∈ db.receivedOutputs, ∀ tx ∈ db.transactions,
    tx.idTx = output.transactionId → IsFunding ids (output, tx) →
      ¬ (spend.pool = output.pool ∧ spend.receivedOutputId = output.idWithinPoolTable)

theorem TopUp.minedSpends_insert (more : TopUp db ids) {account : ℕ}
    (hrow : row ∈ receivedRows db account) (hfunding : IsFunding ids row) :
    minedSpends more.insert height row.1 = minedSpends db height row.1 := by
  obtain ⟨houtput, -, -, htx, hjoin⟩ := mem_receivedRows.1 hrow
  have hnew : more.spends.filter (fun spend => spend.pool = row.1.pool ∧
      spend.receivedOutputId = row.1.idWithinPoolTable) = [] := by
    rw [List.filter_eq_nil_iff]
    intro spend hspend
    rw [decide_eq_true_eq]
    exact more.unspent spend hspend row.1 houtput row.2 htx hjoin hfunding
  simp only [minedSpends, FurtherRows.insert, List.filter_append, hnew, List.append_nil]
  refine List.flatMap_congr fun spend hspend => ?_
  have hnone : more.transactions.filter (·.idTx = spend.transactionId) = [] := by
    rw [List.filter_eq_nil_iff]
    intro tx htx
    rw [decide_eq_true_eq]
    exact more.spends_ne tx htx spend (List.mem_of_mem_filter hspend)
  rw [hnone, List.append_nil]

/-- Further outputs leave what the loop gathers about the funding. -/
theorem TopUp.tally_insert (more : TopUp db ids) (account : ℕ) :
    (GiftCard.tally F db height ids (receivedRows db account)).SameFunding
      (GiftCard.tally F more.insert height ids (receivedRows more.insert account)) := by
  obtain ⟨further, hrows, hfurther⟩ := more.receivedRows_insert account
  have hold : ∀ rows ⊆ receivedRows db account,
      (GiftCard.tally F db height ids rows).SameFunding
        (GiftCard.tally F more.insert height ids rows) := by
    intro rows hsub
    induction rows using List.reverseRecOn with
    | nil => exact ⟨_, rfl⟩
    | append_singleton rows row ih =>
      obtain ⟨hrows, hrow⟩ := List.append_subset.1 hsub
      rw [tally_concat, tally_concat]
      exact (ih hrows).step (more.minedSpends_insert (hrow List.mem_cons_self))
  rw [hrows]
  clear hrows
  induction further using List.reverseRecOn with
  | nil =>
    rw [List.append_nil]
    exact hold _ (List.Subset.refl _)
  | append_singleton further row ih =>
    rw [List.forall_mem_append, List.forall_mem_singleton] at hfurther
    rw [← List.append_assoc, tally_concat]
    exact (ih hfurther.1).step_of_not hfurther.2

end VizorWallet.GiftCard
