import VizorWallet.Keystone.CompactSignatures

/-!
# The stored batch of a signed operation

The transactions of an operation are stored in one word: a mark, their number, and each of them
after its length.

## Main definitions

* `encodePcztBatch`, `decodePcztBatch` — the format and its reader.

## Main results

* `decodePcztBatch_eq_ok` — the reader accepts the words of the lists that are not empty.
* `signed_payloads_readable` — what is written as a signed payload can be read back.
-/

namespace VizorWallet.Ledger

def pcztBatchMagic : Bytes := ascii "VLB1"

/-- One round of the loop of `encodePcztBatch`. -/
def encodeRound (pczt : Bytes) : Except String Bytes := do
  ensure (pczt.length < 2 ^ 32) "Ledger PCZT is too large"
  return leBytes 4 pczt.length ++ pczt

def encodePcztBatch (pczts : List Bytes) : Except String Bytes := do
  ensure (pczts.length < 2 ^ 32) "Ledger PCZT batch is too large"
  let rounds ← pczts.mapM encodeRound
  return pcztBatchMagic ++ leBytes 4 pczts.length ++ rounds.flatten

/-- The number at an offset, and the offset after it. -/
def readBatchU32 (encoded : Bytes) (offset : ℕ) : Except String (ℕ × ℕ) := do
  let stop := offset + 4
  ensure (stop ≤ encoded.length) "Ledger signed-operation batch is truncated"
  return (leValue ((encoded.drop offset).take 4), stop)

/-- The loop of `decodePcztBatch` over the rounds, with the offset at which it stops. -/
def readRounds (encoded : Bytes) : ℕ → ℕ → Except String (List Bytes × ℕ)
  | 0, offset => .ok ([], offset)
  | count + 1, offset => do
    let (len, offset) ← readBatchU32 encoded offset
    let stop := offset + len
    ensure (stop ≤ encoded.length) "Ledger signed-operation batch is truncated"
    let (pczts, last) ← readRounds encoded count stop
    return ((encoded.drop offset).take len :: pczts, last)

def decodePcztBatch (encoded : Bytes) : Except String (List Bytes) := do
  ensure (encoded.take 4 = pcztBatchMagic) "Ledger signed-operation batch has an invalid format"
  let (count, offset) ← readBatchU32 encoded 4
  ensure (count ≠ 0) "Ledger signed-operation batch is empty"
  ensure (count ≤ (encoded.length - offset) / 4)
    "Ledger signed-operation batch has an invalid round count"
  let (pczts, last) ← readRounds encoded count offset
  ensure (last = encoded.length) "Ledger signed-operation batch has trailing data"
  return pczts

variable {pczt encoded rest : Bytes} {pczts : List Bytes} {offset last : ℕ}

/-- A round stands at the front of a word exactly when its length and its bytes do. -/
theorem encodeRound_prefix_iff :
    (∃ round, encodeRound pczt = .ok round ∧ round <+: rest) ↔
      4 ≤ rest.length ∧ 4 + leValue (rest.take 4) ≤ rest.length ∧
        pczt = (rest.drop 4).take (leValue (rest.take 4)) := by
  simp only [encodeRound, bind_eq_ok, ensure_eq_ok, pure_eq_ok, exists_const]
  constructor
  · rintro ⟨_, ⟨hlength, rfl⟩, suffix, rfl⟩
    have hheader : (leBytes 4 pczt.length).length = 4 := length_leBytes ..
    rw [List.append_assoc, List.take_left' hheader, List.drop_left' hheader,
      leValue_leBytes hlength]
    simp
  · rintro ⟨hheader, hfits, rfl⟩
    have hlength : ((rest.drop 4).take (leValue (rest.take 4))).length = leValue (rest.take 4) := by
      rw [List.length_take, List.length_drop]
      omega
    have hcount : (rest.take 4).length = 4 := List.length_take_of_le hheader
    have hlt := leValue_lt (rest.take 4)
    rw [hcount] at hlt
    refine ⟨_, ⟨by rwa [hlength], rfl⟩, ?_⟩
    rw [hlength, (leBytes_eq_iff hlt).2 ⟨hcount, rfl⟩, ← List.take_add]
    exact List.take_prefix ..

theorem length_encodeRound {round : Bytes} (h : encodeRound pczt = .ok round) :
    round.length = 4 + pczt.length := by
  simp only [encodeRound, bind_eq_ok, ensure_eq_ok, pure_eq_ok, exists_const] at h
  rw [← h.2, List.length_append, length_leBytes]

theorem append_prefix_iff {word : Bytes} :
    word ++ encoded <+: rest ↔ word <+: rest ∧ encoded <+: rest.drop word.length := by
  constructor
  · rintro ⟨suffix, rfl⟩
    rw [List.append_assoc, List.drop_left]
    exact ⟨List.prefix_append .., List.prefix_append ..⟩
  · rintro ⟨⟨suffix, rfl⟩, hencoded⟩
    rw [List.drop_left] at hencoded
    exact (List.prefix_append_right_inj word).2 hencoded

/-- The rounds that are read stand one after another at the offset. -/
theorem readRounds_eq_ok {count : ℕ} :
    readRounds encoded count offset = .ok (pczts, last) ↔ pczts.length = count ∧
      ∃ rounds, List.Forall₂ (fun pczt round => encodeRound pczt = .ok round) pczts rounds ∧
        rounds.flatten <+: encoded.drop offset ∧ last = offset + rounds.flatten.length := by
  induction count generalizing offset pczts with
  | zero =>
    simp only [readRounds, Except.ok.injEq, Prod.mk.injEq, List.length_eq_zero_iff]
    constructor
    · rintro ⟨rfl, rfl⟩
      exact ⟨rfl, [], .nil, List.nil_prefix, rfl⟩
    · rintro ⟨rfl, rounds, hrounds, -, rfl⟩
      obtain rfl := List.forall₂_nil_left_iff.1 hrounds
      exact ⟨rfl, rfl⟩
  | succ count ih =>
    have hlength : (encoded.drop offset).length = encoded.length - offset := List.length_drop ..
    simp only [readRounds, readBatchU32, bind_eq_ok, ensure_eq_ok, pure_eq_ok, exists_const]
    constructor
    · rintro ⟨_, ⟨hheader, rfl⟩, hfits, ⟨pczts, last⟩, hrest, heq⟩
      obtain ⟨rfl, rfl⟩ := Prod.mk.inj heq
      dsimp only at hfits hrest
      obtain ⟨hcount, rounds, hrounds, hprefix, rfl⟩ := ih.1 hrest
      obtain ⟨round, hround, hfront⟩ :=
        (@encodeRound_prefix_iff _ (encoded.drop offset)).2 ⟨by omega, by omega, rfl⟩
      have hround' : round.length = 4 + leValue ((encoded.drop offset).take 4) := by
        rw [length_encodeRound hround, List.length_take, List.length_drop]
        omega
      rw [List.drop_drop] at hround
      refine ⟨by simp [hcount], round :: rounds, .cons hround hrounds, ?_, ?_⟩
      · rw [List.flatten_cons, append_prefix_iff, hround', List.drop_drop, ← Nat.add_assoc]
        exact ⟨hfront, hprefix⟩
      · rw [List.flatten_cons, List.length_append, hround']
        omega
    · rintro ⟨hcount, rounds, hrounds, hprefix, rfl⟩
      cases hrounds with
      | nil => cases hcount
      | @cons pczt round pczts rounds hround hrounds =>
        rw [List.flatten_cons, append_prefix_iff] at hprefix
        obtain ⟨hheader, hfits, rfl⟩ := encodeRound_prefix_iff.1 ⟨round, hround, hprefix.1⟩
        have hround' : round.length = 4 + leValue ((encoded.drop offset).take 4) := by
          rw [length_encodeRound hround, List.length_take, List.length_drop]
          omega
        rw [hround', List.drop_drop, ← Nat.add_assoc] at hprefix
        have hlast : offset + (round :: rounds).flatten.length =
            offset + 4 + leValue ((encoded.drop offset).take 4) + rounds.flatten.length := by
          rw [List.flatten_cons, List.length_append, hround']
          omega
        refine ⟨_, ⟨by omega, rfl⟩, by dsimp only; omega, _,
          ih.2 ⟨by simpa using hcount, rounds, hrounds, hprefix.2, hlast⟩, ?_⟩
        rw [List.drop_drop]

/-- A round takes at least the four bytes of its length. -/
theorem length_rounds_ge {rounds : List Bytes}
    (h : List.Forall₂ (fun pczt round => encodeRound pczt = .ok round) pczts rounds) :
    4 * pczts.length ≤ rounds.flatten.length := by
  induction h with
  | nil => exact Nat.zero_le _
  | cons hround _ ih =>
    rw [List.flatten_cons, List.length_append, List.length_cons, length_encodeRound hround]
    omega

/-- The reader accepts a word exactly when it is written for the list it returns, which is not
empty. -/
theorem decodePcztBatch_eq_ok : decodePcztBatch encoded = .ok pczts ↔
    encodePcztBatch pczts = .ok encoded ∧ pczts ≠ [] := by
  have hmagic : pcztBatchMagic.length = 4 := by decide
  simp only [decodePcztBatch, encodePcztBatch, bind_eq_ok, ensure_eq_ok, exists_const, pure_eq_ok,
    mapM_eq_ok]
  constructor
  · rintro ⟨hmark, ⟨count, offset⟩, hread, hcount, -, ⟨_, last⟩, hread', hend, rfl⟩
    simp only [readBatchU32, bind_eq_ok, ensure_eq_ok, exists_const, pure_eq_ok,
      Prod.mk.injEq] at hread
    obtain ⟨hheader, rfl, rfl⟩ := hread
    obtain ⟨hlength, rounds, hrounds, hprefix, rfl⟩ := readRounds_eq_ok.1 hread'
    dsimp only at hcount hend hlength ⊢
    have hcount' : ((encoded.drop 4).take 4).length = 4 := by
      rw [List.length_take, List.length_drop]
      omega
    have hlt := leValue_lt ((encoded.drop 4).take 4)
    rw [hcount', ← hlength] at hlt
    have hbody : rounds.flatten = encoded.drop 8 :=
      hprefix.eq_of_length (by rw [List.length_drop]; omega)
    refine ⟨⟨hlt, rounds, hrounds, ?_⟩, by rintro rfl; exact hcount hlength.symm⟩
    rw [(leBytes_eq_iff hlt).2 ⟨hcount', hlength.symm⟩, hbody, ← hmark, List.append_assoc,
      ← List.drop_drop (i := 4) (j := 4), List.take_append_drop, List.take_append_drop]
  · rintro ⟨⟨hcount, rounds, hrounds, rfl⟩, hne⟩
    have hheader : (leBytes 4 pczts.length).length = 4 := length_leBytes ..
    have hge := length_rounds_ge hrounds
    have hbody : (pcztBatchMagic ++ leBytes 4 pczts.length ++ rounds.flatten).drop 8 =
        rounds.flatten := List.drop_left' (by rw [List.length_append, hmagic, hheader])
    have hlength : (pcztBatchMagic ++ leBytes 4 pczts.length ++ rounds.flatten).length =
        8 + rounds.flatten.length := by
      rw [List.length_append, List.length_append, hmagic, hheader]
    have hread : readBatchU32 (pcztBatchMagic ++ leBytes 4 pczts.length ++ rounds.flatten) 4 =
        .ok (pczts.length, 8) := by
      rw [readBatchU32, hlength, ensure_of _ (by omega), List.append_assoc,
        List.drop_left' hmagic, List.take_left' hheader, leValue_leBytes hcount]
      rfl
    refine ⟨by rw [List.append_assoc, List.take_left' hmagic], _, hread, ?_, ?_,
      (pczts, 8 + rounds.flatten.length), ?_, hlength.symm, rfl⟩
    · exact fun hzero => hne (List.length_eq_zero_iff.1 hzero)
    · dsimp only
      omega
    · exact readRounds_eq_ok.2 ⟨rfl, rounds, hrounds, by rw [hbody], rfl⟩

open Keystone

/-- The readers of signed payloads accept the words of the writers, and of these all but the lists
of more than 96 signatures and the batch without a transaction. -/
theorem signed_payloads_readable :
    (∀ sigs bytes, decodeCompactActionSigs bytes = .ok sigs ↔
      encodeCompactActionSigs sigs = .ok bytes ∧ sigs.length ≤ zcashSignBatchMaxSignatures) ∧
    ∀ pczts encoded, decodePcztBatch encoded = .ok pczts ↔
      encodePcztBatch pczts = .ok encoded ∧ pczts ≠ [] :=
  ⟨fun _ _ => decodeCompactActionSigs_eq_ok, fun _ _ => decodePcztBatch_eq_ok⟩

/-- The word of 97 signatures is written and cannot be read back. -/
theorem unreadable_signatures :
    let sigs := List.replicate 97 ⟨.orchard, 0, ⟨List.replicate 64 0, by decide⟩⟩
    ∃ bytes, encodeCompactActionSigs sigs = .ok bytes ∧
      decodeCompactActionSigs bytes ≠ .ok sigs := by
  intro sigs
  obtain ⟨bytes, hbytes⟩ := @exists_encodeCompactActionSigs sigs (by simp [sigs])
    fun sig hmem => by
      obtain rfl := List.eq_of_mem_replicate hmem
      decide
  refine ⟨bytes, hbytes, fun hread => ?_⟩
  have hmax := (decodeCompactActionSigs_eq_ok.1 hread).2
  rw [List.length_replicate] at hmax
  exact absurd hmax (by decide)

end VizorWallet.Ledger
