import VizorWallet.Library.Outcome
import VizorWallet.Library.Pointwise
import VizorWallet.Library.Wire

/-!
# Compact signatures

The store keeps the signatures of a message in place of the signed transaction: their number, and
one record of 69 bytes for each.

## Main definitions

* `encodeCompactActionSigs`, `decodeCompactActionSigs` — the format and its reader.

## Main results

* `decodeCompactActionSigs_eq_ok` — the reader accepts the words of at most 96 signatures.
-/

namespace VizorWallet.Keystone

inductive ValuePool
  | orchard | ironwood
  deriving DecidableEq, Repr

structure SpendAuthSignature where
  valuePool : ValuePool
  actionIndex : ℕ
  signature : Fixed 64
  deriving DecidableEq

def zcashSigLen : ℕ := 64

def compactActionSigLen : ℕ := 1 + 4 + zcashSigLen

def zcashSignBatchMaxSignatures : ℕ := 96

/-- An operation on `usize` that reports an overflow. -/
def checkedUsize (value : ℕ) : Option ℕ := if value < 2 ^ 64 then some value else none

def encodeSignaturePool : ValuePool → UInt8
  | .orchard => 0
  | .ironwood => 1

def decodeSignaturePool (pool : ℕ) : Except String ValuePool :=
  if pool = 0 then .ok .orchard
  else if pool = 1 then .ok .ironwood
  else .error s!"Unsupported zcash-batch-sig-result pool {pool}"

/-- One round of the loop of `encodeCompactActionSigs`. -/
def encodeActionSig (sig : SpendAuthSignature) : Except String Bytes := do
  ensure (sig.actionIndex < 2 ^ 32) "Compact signature action index exceeds u32"
  return encodeSignaturePool sig.valuePool :: (leBytes 4 sig.actionIndex ++ sig.signature.1)

def encodeCompactActionSigs (sigs : List SpendAuthSignature) : Except String Bytes := do
  ensure (sigs.length < 2 ^ 32) "Too many compact signatures to encode"
  let bodyLen ← orError (checkedUsize (sigs.length * compactActionSigLen))
    "Compact signature blob length overflow"
  let _capacity ← orError (checkedUsize (bodyLen + 4)) "Compact signature blob length overflow"
  let records ← sigs.mapM encodeActionSig
  return leBytes 4 sigs.length ++ records.flatten

/-- One round of the loop of `decodeCompactActionSigs`. -/
def decodeActionSig (record : Bytes) : Except String SpendAuthSignature := do
  let valuePool ← decodeSignaturePool (record.getD 0 0).toNat
  let actionIndex := leValue ((record.drop 1).take 4)
  if hlength : (record.drop 5).length = 64 then
    return ⟨valuePool, actionIndex, ⟨record.drop 5, hlength⟩⟩
  else throw "Compact signature record has wrong signature length"

def decodeCompactActionSigs (bytes : Bytes) : Except String (List SpendAuthSignature) := do
  ensure (4 ≤ bytes.length) "Compact signature blob is too short for its count header"
  let count := leValue (bytes.take 4)
  ensure (count ≤ zcashSignBatchMaxSignatures)
    s!"Compact signature blob exceeds the {zcashSignBatchMaxSignatures}-signature limit"
  let body := bytes.drop 4
  let expected ← orError (checkedUsize (count * compactActionSigLen))
    "Compact signature blob length overflow"
  ensure (body.length = expected) (s!"Compact signature blob has {body.length} body bytes, " ++
    s!"expected {expected} for {count} signatures")
  (chunksExact compactActionSigLen body).mapM decodeActionSig

variable {sig : SpendAuthSignature} {sigs : List SpendAuthSignature} {record bytes : Bytes}

theorem checkedUsize_eq_some {value value' : ℕ} :
    checkedUsize value = some value' ↔ value < 2 ^ 64 ∧ value = value' := by
  simp [checkedUsize]

theorem decodeSignaturePool_eq_ok {byte : UInt8} {pool : ValuePool} :
    decodeSignaturePool byte.toNat = .ok pool ↔ encodeSignaturePool pool = byte := by
  rw [← UInt8.toNat_inj]
  unfold decodeSignaturePool
  split_ifs with horchard hironwood
  · cases pool <;> simp [encodeSignaturePool, horchard]
  · cases pool <;> simp [encodeSignaturePool, hironwood]
  · cases pool <;> simp [encodeSignaturePool] <;> omega

/-- A record is written for the signature that is read from it. -/
theorem encodeActionSig_eq_ok : encodeActionSig sig = .ok record ↔
    record.length = compactActionSigLen ∧ decodeActionSig record = .ok sig := by
  obtain ⟨pool, actionIndex, signature, hsignature⟩ := sig
  simp only [encodeActionSig, bind_eq_ok, ensure_eq_ok, pure_eq_ok, exists_const]
  constructor
  · rintro ⟨hindex, rfl⟩
    have hvalue : leValue (leBytes 4 actionIndex) = actionIndex :=
      leValue_leBytes (by simpa using hindex)
    have hpool := decodeSignaturePool_eq_ok.2 (rfl : encodeSignaturePool pool = _)
    exact ⟨by simp [hsignature, compactActionSigLen, zcashSigLen],
      by simp [decodeActionSig, hpool, hvalue, hsignature]⟩
  · rintro ⟨hlength, hdecode⟩
    cases record with
    | nil => cases hlength
    | cons byte rest =>
      have hrest : (rest.take 4).length = 4 := by
        simp only [List.length_cons, compactActionSigLen, zcashSigLen] at hlength
        rw [List.length_take]
        omega
      obtain ⟨_, hpool, hdecode⟩ := bind_eq_ok.1 hdecode
      simp only [List.drop_succ_cons, List.drop_zero] at hdecode
      split at hdecode
      · simp only [pure_eq_ok, SpendAuthSignature.mk.injEq, Subtype.mk.injEq] at hdecode
        obtain ⟨rfl, rfl, rfl⟩ := hdecode
        have hlt := leValue_lt (rest.take 4)
        rw [hrest] at hlt
        refine ⟨by simpa using hlt, ?_⟩
        rw [decodeSignaturePool_eq_ok.1 hpool, (leBytes_eq_iff hlt).2 ⟨hrest, rfl⟩,
          List.take_append_drop, List.getD_cons_zero]
      · cases hdecode

theorem encodeRecords_iff {records : List Bytes} :
    List.Forall₂ (fun sig record => encodeActionSig sig = .ok record) sigs records ↔
      (∀ record ∈ records, record.length = compactActionSigLen) ∧
        List.Forall₂ (fun record sig => decodeActionSig record = .ok sig) records sigs := by
  rw [← List.forall₂_and_left]
  simp only [← encodeActionSig_eq_ok]
  exact ⟨List.Forall₂.flip, List.Forall₂.flip⟩

/-- Every list that fits the count of the format is written, whatever its length. -/
theorem exists_encodeCompactActionSigs (hcount : sigs.length < 2 ^ 32)
    (hindex : ∀ sig ∈ sigs, sig.actionIndex < 2 ^ 32) :
    ∃ bytes, encodeCompactActionSigs sigs = .ok bytes := by
  have hrecords : sigs.mapM encodeActionSig = .ok (sigs.map fun sig =>
      encodeSignaturePool sig.valuePool :: (leBytes 4 sig.actionIndex ++ sig.signature.1)) := by
    rw [mapM_eq_ok, List.forall₂_map_right_iff, List.forall₂_same]
    intro sig hmem
    rw [encodeActionSig, ensure_of _ (hindex sig hmem)]
    rfl
  have hproduct : sigs.length * compactActionSigLen + 4 < 2 ^ 64 := by
    simp only [compactActionSigLen, zcashSigLen]
    omega
  simp only [encodeCompactActionSigs, bind_eq_ok, ensure_eq_ok, exists_const, orError_eq_ok,
    checkedUsize_eq_some, pure_eq_ok]
  exact ⟨_, hcount, _, ⟨by omega, rfl⟩, _, ⟨hproduct, rfl⟩, _, hrecords, rfl⟩

/-- The reader accepts a word exactly when it is written for the list it returns, which has at most
96 signatures. -/
theorem decodeCompactActionSigs_eq_ok : decodeCompactActionSigs bytes = .ok sigs ↔
    encodeCompactActionSigs sigs = .ok bytes ∧ sigs.length ≤ zcashSignBatchMaxSignatures := by
  have hpos : 0 < compactActionSigLen := by decide
  have hfits {count : ℕ} (hmax : count ≤ 96) : count < 2 ^ 32 ∧
      count * compactActionSigLen < 2 ^ 64 ∧ count * compactActionSigLen + 4 < 2 ^ 64 := by
    simp only [compactActionSigLen, zcashSigLen]
    omega
  simp only [decodeCompactActionSigs, encodeCompactActionSigs, bind_eq_ok, ensure_eq_ok,
    exists_const, orError_eq_ok, checkedUsize_eq_some, pure_eq_ok, mapM_eq_ok, encodeRecords_iff]
  constructor
  · rintro ⟨hheader, hmax, _, ⟨-, rfl⟩, hbody, hrecords⟩
    have hdvd : compactActionSigLen ∣ (bytes.drop 4).length := hbody ▸ Nat.dvd_mul_left ..
    have hlength : leValue (bytes.take 4) = sigs.length := by
      rw [← hrecords.length_eq, chunksExact, List.length_map, List.length_range, hbody,
        Nat.mul_div_cancel _ hpos]
    rw [hlength] at hmax
    obtain ⟨hcount, hproduct, hcapacity⟩ := hfits hmax
    refine ⟨⟨hcount, _, ⟨hproduct, rfl⟩, _, ⟨hcapacity, rfl⟩, _,
      ⟨fun record => length_of_mem_chunksExact, hrecords⟩, ?_⟩, hmax⟩
    rw [flatten_chunksExact hdvd,
      (leBytes_eq_iff hcount).2 ⟨List.length_take_of_le hheader, hlength⟩, List.take_append_drop]
  · rintro ⟨⟨hcount, _, ⟨hproduct, rfl⟩, _, -, records, ⟨hlengths, hrecords⟩, rfl⟩, hmax⟩
    have hheader : (leBytes 4 sigs.length).length = 4 := length_leBytes ..
    have hbody : records.flatten.length = sigs.length * compactActionSigLen := by
      rw [List.length_flatten, List.map_congr_left hlengths, List.map_const',
        List.sum_replicate_nat, hrecords.length_eq]
    rw [List.take_left' hheader, List.drop_left' hheader, leValue_leBytes hcount]
    refine ⟨by simp, hmax, _, ⟨hproduct, rfl⟩, hbody, ?_⟩
    rwa [chunksExact_flatten hpos hlengths]

end VizorWallet.Keystone
