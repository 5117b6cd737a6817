import VizorWallet.Ledger.Serializer

/-!
# Reading a viewing key from a Ledger device

The key comes in chunks: the first one declares the length, and more are asked for until that many
bytes have arrived. Only then are the chunks checked.

## Main definitions

* `decodeUfvkChunks` — the check of the chunks.
* `ufvk` — the commands that are exchanged with a device, up to a number of continuations.
* `Settles` — the device is asked no more often than its first answer allows, and what is wrong is
  rejected where it appears.

## Main results

* `ufvk_settles_iff` — which answers of a device make the loop settle.
-/

namespace VizorWallet.Ledger

def GET_VK : UInt8 := 0x50
def GET_VK_FIRST : UInt8 := 0x00
def GET_VK_CONTINUE : UInt8 := 0x80
def GET_VK_UFVK : UInt8 := 0x00
def UFVK_RESPONSE_LIMIT : ℕ := 8 * 1024

def ufvkCommands (accountIndex : UInt32) : Except String (ApduCommand × ApduCommand) := do
  ensure (accountIndex < 0x80000000) "Ledger account index must be below 2^31"
  let account := 0x80000000 ||| accountIndex
  let unified ← packDerivationPath [0x80000020, 0x80000085, account]
  let transparent ← packDerivationPath [0x8000002c, 0x80000085, account]
  return (⟨ZCASH_CLA, GET_VK, GET_VK_FIRST, GET_VK_UFVK, unified ++ transparent⟩,
    ⟨ZCASH_CLA, GET_VK, GET_VK_CONTINUE, GET_VK_UFVK, []⟩)

/-- The length that a key declares in its first two bytes. -/
def declaredLength : Bytes → Option ℕ
  | high :: low :: _ => some (high.toNat * 256 + low.toNat)
  | _ => none

/-- The chunks after the first are appended until the expected length is reached. -/
def appendChunks (expectedLen : ℕ) : Bytes → List Bytes → Except String Bytes
  | response, [] => .ok response
  | response, chunk :: rest => do
    ensure (response.length < expectedLen) "Ledger UFVK response contains trailing chunks"
    ensure (chunk ≠ []) "Ledger UFVK response ended before the declared length"
    appendChunks expectedLen (response ++ chunk) rest

def decodeUfvkChunks (chunks : List Bytes) : Except String String := do
  let first := chunks.head?.getD []
  let keyLen ← orError (declaredLength first) "Ledger UFVK response is missing its length prefix"
  let expectedLen := 2 + keyLen
  ensure (expectedLen ≤ UFVK_RESPONSE_LIMIT)
    s!"Ledger UFVK response declares an unreasonable length: {keyLen} bytes"
  let response ← appendChunks expectedLen first chunks.tail
  ensure (expectedLen ≤ response.length) "Ledger UFVK response ended before the declared length"
  ensure (response.length = expectedLen) "Ledger UFVK response contains trailing bytes"
  orError (String.fromUTF8? ⟨(response.drop 2).toArray⟩) "Ledger UFVK response is not valid UTF-8"

/-! ## The loop -/

/-- What a device answers to the commands that it gets, one after the other. -/
abbrev Exchange := ℕ → ApduCommand → Except String Bytes

/-- The number of bytes in some chunks. -/
def received (chunks : List Bytes) : ℕ := (chunks.map List.length).sum

/-- Ask for more until the expected length is reached; `none` is a loop that still asks. The result
comes with the chunks that it was made from. -/
def readUfvkChunks (exchange : Exchange) (continuation : ApduCommand) (expectedLen : ℕ) :
    ℕ → List Bytes → Option (List Bytes × Except String String)
  | fuel, chunks =>
    if received chunks < expectedLen then
      match fuel with
      | 0 => none
      | fuel + 1 =>
        match exchange chunks.length continuation with
        | .error error => some (chunks, .error error)
        | .ok chunk => readUfvkChunks exchange continuation expectedLen fuel (chunks ++ [chunk])
    else some (chunks, decodeUfvkChunks chunks)

/-- Read a key with at most `fuel` continuations. -/
def ufvk (exchange : Exchange) (accountIndex : UInt32) (fuel : ℕ) :
    Option (List Bytes × Except String String) :=
  match ufvkCommands accountIndex with
  | .error error => some ([], .error error)
  | .ok (first, continuation) =>
    match exchange 0 first with
    | .error error => some ([], .error error)
    | .ok chunk =>
      match declaredLength chunk with
      | none => some ([chunk], .error "Ledger UFVK response is missing its length prefix")
      | some keyLen => readUfvkChunks exchange continuation (2 + keyLen) fuel [chunk]

/-! ## Answers without errors -/

/-- A device that answers every command with success. -/
def answering (answers : ℕ → Bytes) : Exchange := fun index _ => .ok (answers index)

/-- The first answers of a device. -/
def firstAnswers (answers : ℕ → Bytes) (count : ℕ) : List Bytes := (List.range count).map answers

/-- The key is read with one exchange, and at most one more for each byte that is declared; the
result is what the chunks are decoded to, and the first chunk that is wrong is the last that is
read. -/
def Settles (accountIndex : UInt32) (answers : ℕ → Bytes) : Prop :=
  ∃ fuel chunks result, ufvk (answering answers) accountIndex fuel = some (chunks, result) ∧
    chunks.length ≤ (declaredLength (answers 0)).getD 0 + 1 ∧
    result = decodeUfvkChunks chunks ∧
    (∀ index, 0 < index → chunks[index]? = some [] →
      index + 1 = chunks.length ∧ ∃ error, result = .error error) ∧
    ∀ keyLen, declaredLength (answers 0) = some keyLen → UFVK_RESPONSE_LIMIT < 2 + keyLen →
      chunks.length = 1 ∧ ∃ error, result = .error error

/-- The first answer has no length, or has it all; or it declares no more than the limit, and the
answers are not empty before that length is reached. -/
def Paced (answers : ℕ → Bytes) : Prop :=
  ∀ keyLen, declaredLength (answers 0) = some keyLen → (answers 0).length < 2 + keyLen →
    2 + keyLen ≤ UFVK_RESPONSE_LIMIT ∧
      ∀ count, 0 < count → received (firstAnswers answers count) < 2 + keyLen → answers count ≠ []

variable {answers : ℕ → Bytes} {accountIndex : UInt32} {keyLen expectedLen : ℕ}

theorem length_firstAnswers (count : ℕ) : (firstAnswers answers count).length = count := by
  rw [firstAnswers, List.length_map, List.length_range]

theorem firstAnswers_succ (count : ℕ) :
    firstAnswers answers (count + 1) = firstAnswers answers count ++ [answers count] := by
  rw [firstAnswers, List.range_succ, List.map_append]
  rfl

theorem received_succ (count : ℕ) : received (firstAnswers answers (count + 1)) =
    received (firstAnswers answers count) + (answers count).length := by
  rw [firstAnswers_succ, received, List.map_append, List.sum_append]
  rfl

theorem received_mono {count count' : ℕ} (h : count ≤ count') :
    received (firstAnswers answers count) ≤ received (firstAnswers answers count') := by
  induction h with
  | refl => exact le_rfl
  | step _ ih => exact ih.trans (by rw [received_succ]; omega)

theorem received_one : received (firstAnswers answers 1) = (answers 0).length := by
  simp [firstAnswers, received]

theorem ufvkCommands_ok (h : accountIndex < 0x80000000) :
    ∃ commands, ufvkCommands accountIndex = .ok commands := by
  have hpath (purpose account : UInt32) :
      ∃ path, packDerivationPath [purpose, 0x80000085, account] = .ok path :=
    ⟨3 :: ([purpose, 0x80000085, account].map u32be).flatten,
      by simp [packDerivationPath, ensurePacketSize, MAX_PACKET_SIZE]⟩
  obtain ⟨unified, hunified⟩ := hpath 0x80000020 (0x80000000 ||| accountIndex)
  obtain ⟨transparent, htransparent⟩ := hpath 0x8000002c (0x80000000 ||| accountIndex)
  simp only [ufvkCommands, ensure_of _ h, ok_bind, hunified, htransparent]
  exact ⟨_, rfl⟩

/-- An index that is too large is reported before the device is asked. -/
theorem ufvk_index {exchange : Exchange} {fuel : ℕ} (h : ¬ accountIndex < 0x80000000) :
    ufvk exchange accountIndex fuel =
      some ([], .error "Ledger account index must be below 2^31") := by
  have hcommands :
      ufvkCommands accountIndex = .error "Ledger account index must be below 2^31" := by
    unfold ufvkCommands ensure
    rw [if_neg h]
    rfl
  unfold ufvk
  rw [hcommands]

/-- The loop, where the first answer declares a length. -/
theorem ufvk_eq_read (hindex : accountIndex < 0x80000000)
    (hlength : declaredLength (answers 0) = some keyLen) : ∃ continuation, ∀ fuel,
      ufvk (answering answers) accountIndex fuel =
        readUfvkChunks (answering answers) continuation (2 + keyLen) fuel
          (firstAnswers answers 1) := by
  obtain ⟨⟨first, continuation⟩, hcommands⟩ := ufvkCommands_ok hindex
  refine ⟨continuation, fun fuel => ?_⟩
  simp only [ufvk, hcommands, answering, hlength]
  rfl

theorem ufvk_short (hindex : accountIndex < 0x80000000)
    (hshort : declaredLength (answers 0) = none) :
    ufvk (answering answers) accountIndex 0 =
      some ([answers 0], .error "Ledger UFVK response is missing its length prefix") := by
  obtain ⟨commands, hcommands⟩ := ufvkCommands_ok hindex
  simp only [ufvk, hcommands, answering, hshort]

/-! ## What the loop reads -/

/-- When the loop ends, it has read the first answers, up to the expected length. -/
theorem readUfvkChunks_ends {continuation : ApduCommand} {fuel count : ℕ} {chunks : List Bytes}
    {result : Except String String}
    (h : readUfvkChunks (answering answers) continuation expectedLen fuel
      (firstAnswers answers count) = some (chunks, result)) :
    ∃ total, count ≤ total ∧ chunks = firstAnswers answers total ∧
      expectedLen ≤ received (firstAnswers answers total) := by
  induction fuel generalizing count with
  | zero =>
    unfold readUfvkChunks at h
    split at h
    · nomatch h
    · rename_i hreceived
      obtain ⟨rfl, -⟩ := Prod.mk.inj (Option.some.inj h)
      exact ⟨count, le_rfl, rfl, by omega⟩
  | succ fuel ih =>
    unfold readUfvkChunks at h
    split at h
    · simp only [answering, length_firstAnswers, ← firstAnswers_succ] at h
      obtain ⟨total, hle, hchunks, hreceived⟩ := ih h
      exact ⟨total, by omega, hchunks, hreceived⟩
    · rename_i hreceived
      obtain ⟨rfl, -⟩ := Prod.mk.inj (Option.some.inj h)
      exact ⟨count, le_rfl, rfl, by omega⟩

/-- When enough answers have the expected length, the loop ends at the first that has. -/
theorem readUfvkChunks_reaches (continuation : ApduCommand) {fuel count : ℕ}
    (h : expectedLen ≤ received (firstAnswers answers (count + fuel))) :
    ∃ total, count ≤ total ∧ total ≤ count + fuel ∧
      readUfvkChunks (answering answers) continuation expectedLen fuel
        (firstAnswers answers count) =
        some (firstAnswers answers total, decodeUfvkChunks (firstAnswers answers total)) ∧
      ∀ index, count ≤ index → index < total →
        received (firstAnswers answers index) < expectedLen := by
  induction fuel generalizing count with
  | zero =>
    rw [Nat.add_zero] at h
    unfold readUfvkChunks
    rw [if_neg (Nat.not_lt.2 h)]
    exact ⟨count, le_rfl, le_rfl, rfl, fun index _ _ => by omega⟩
  | succ fuel ih =>
    unfold readUfvkChunks
    split
    · rename_i hreceived
      have hlater : expectedLen ≤ received (firstAnswers answers (count + 1 + fuel)) := by
        rwa [Nat.add_assoc, Nat.add_comm 1]
      obtain ⟨total, hle, hle', heq, hbefore⟩ := ih hlater
      simp only [answering, length_firstAnswers, ← firstAnswers_succ]
      refine ⟨total, by omega, by omega, heq, fun index hindex hlt => ?_⟩
      obtain rfl | hlater := Nat.eq_or_lt_of_le hindex
      · exact hreceived
      · exact hbefore index hlater hlt
    · exact ⟨count, le_rfl, by omega, rfl, fun index _ _ => by omega⟩

/-- Answers that are not empty reach the declared length in time. -/
theorem Paced.reaches (h : Paced answers) (hlength : declaredLength (answers 0) = some keyLen) :
    2 + keyLen ≤ received (firstAnswers answers (1 + keyLen)) := by
  by_contra hshort
  have htwo : 2 ≤ (answers 0).length := by
    unfold declaredLength at hlength
    split at hlength
    · rename_i heq
      simp [heq]
    · nomatch hlength
  -- each answer that is asked for brings a byte
  have hgrow (count : ℕ) (hcount : count ≤ keyLen) :
      2 + count ≤ received (firstAnswers answers (1 + count)) := by
    induction count with
    | zero => rwa [Nat.add_zero, Nat.add_zero, received_one]
    | succ count ih =>
      have hbefore : received (firstAnswers answers (1 + count)) < 2 + keyLen :=
        (received_mono (by omega)).trans_lt (Nat.not_le.1 hshort)
      have hfirst : (answers 0).length < 2 + keyLen := by
        rw [← received_one]
        exact (received_mono (by omega)).trans_lt hbefore
      have hbyte := List.length_pos_of_ne_nil
        ((h keyLen hlength hfirst).2 (1 + count) (by omega) hbefore)
      have := ih (by omega)
      rw [← Nat.add_assoc 1 count 1, received_succ]
      omega
  exact hshort (hgrow keyLen le_rfl)

/-- What declares too much is not decoded. -/
theorem decodeUfvkChunks_limit {first : Bytes} {rest : List Bytes}
    (hlength : declaredLength first = some keyLen) (hlimit : UFVK_RESPONSE_LIMIT < 2 + keyLen) :
    ∃ error, decodeUfvkChunks (first :: rest) = .error error := by
  unfold decodeUfvkChunks ensure
  simp only [List.head?_cons, Option.getD_some, hlength, orError_some, ok_bind,
    if_neg (Nat.not_le.2 hlimit)]
  exact ⟨_, rfl⟩

theorem decodeUfvkChunks_short {chunks : List Bytes}
    (hshort : declaredLength (chunks.head?.getD []) = none) :
    decodeUfvkChunks chunks = .error "Ledger UFVK response is missing its length prefix" := by
  simp only [decodeUfvkChunks, hshort]
  rfl

theorem Paced.settles (h : Paced answers) (hindex : accountIndex < 0x80000000) :
    Settles accountIndex answers := by
  cases hlength : declaredLength (answers 0) with
  | none =>
    have hdecoded : decodeUfvkChunks [answers 0] =
        .error "Ledger UFVK response is missing its length prefix" := decodeUfvkChunks_short hlength
    refine ⟨0, [answers 0], _, ufvk_short hindex hlength, by simp, hdecoded.symm,
      fun index hpos hget => ?_, fun keyLen hkeyLen => ?_⟩
    · obtain ⟨hlt, -⟩ := List.getElem?_eq_some_iff.1 hget
      rw [List.length_singleton] at hlt
      omega
    · exact nomatch hlength.symm.trans hkeyLen
  | some keyLen =>
    obtain ⟨continuation, hread⟩ := ufvk_eq_read hindex hlength
    obtain ⟨total, hone, htotal, heq, hbefore⟩ :=
      readUfvkChunks_reaches continuation (h.reaches hlength)
    refine ⟨keyLen, firstAnswers answers total, decodeUfvkChunks (firstAnswers answers total),
      (hread keyLen).trans heq, ?_, rfl, fun index hpos hget => ?_,
      fun keyLen' hlength' hlimit => ?_⟩
    · rw [hlength, length_firstAnswers, Option.getD_some]
      omega
    · -- an empty answer was not asked for
      obtain ⟨hlt, hempty⟩ := List.getElem?_eq_some_iff.1 hget
      rw [length_firstAnswers] at hlt
      have hshort := hbefore index hpos hlt
      have hfirst : (answers 0).length < 2 + keyLen := by
        rw [← received_one]
        exact (received_mono hpos).trans_lt hshort
      refine absurd ?_ ((h keyLen hlength hfirst).2 index hpos hshort)
      simpa [firstAnswers] using hempty
    · obtain rfl := Option.some.inj (hlength.symm.trans hlength')
      have hfirst : ¬ (answers 0).length < 2 + keyLen :=
        fun hfirst => Nat.not_le.2 hlimit (h keyLen hlength hfirst).1
      have hall : total = 1 := by
        by_contra hne
        have := hbefore 1 le_rfl (by omega)
        rw [received_one] at this
        exact hfirst this
      subst hall
      exact ⟨length_firstAnswers 1, decodeUfvkChunks_limit hlength hlimit⟩

theorem Settles.paced (h : Settles accountIndex answers) (hindex : accountIndex < 0x80000000) :
    Paced answers := by
  obtain ⟨fuel, chunks, result, hrun, -, -, hempty, hlimit⟩ := h
  intro keyLen hlength hfirst
  obtain ⟨continuation, hread⟩ := ufvk_eq_read hindex hlength
  obtain ⟨total, hone, rfl, hreceived⟩ := readUfvkChunks_ends ((hread fuel).symm.trans hrun)
  rw [length_firstAnswers] at hempty hlimit
  constructor
  · by_contra hover
    obtain ⟨rfl, -⟩ := hlimit keyLen hlength (Nat.not_le.1 hover)
    rw [received_one] at hreceived
    omega
  · intro count hpos hshort hnil
    have hlt : count < total := by
      by_contra hle
      have hmono : received (firstAnswers answers total) ≤ received (firstAnswers answers count) :=
        received_mono (Nat.not_lt.1 hle)
      omega
    -- after an empty answer, as many bytes are missing as before
    obtain ⟨rfl, -⟩ := hempty count hpos (by simp [firstAnswers, hlt, hnil])
    rw [received_succ, hnil, List.length_nil] at hreceived
    omega

/-- The loop settles, for an account that exists, exactly with answers that keep its pace. -/
theorem ufvk_settles_iff (accountIndex : UInt32) (answers : ℕ → Bytes) :
    Settles accountIndex answers ↔ accountIndex < 0x80000000 ∧ Paced answers := by
  constructor
  · intro h
    by_cases hindex : accountIndex < 0x80000000
    · exact ⟨hindex, h.paced hindex⟩
    · obtain ⟨fuel, chunks, result, hrun, -, rfl, -⟩ := h
      rw [ufvk_index hindex] at hrun
      obtain ⟨rfl, hresult⟩ := Prod.mk.inj (Option.some.inj hrun)
      rw [decodeUfvkChunks_short (by rfl)] at hresult
      simp at hresult
  · exact fun ⟨hindex, hpaced⟩ => hpaced.settles hindex

/-- A device that declares two bytes and then answers with nothing. -/
def emptyAnswers : ℕ → Bytes
  | 0 => [0, 2]
  | _ + 1 => []

/-- It is asked again and again. -/
theorem ufvk_polls_emptyAnswers : ¬ Settles 0 emptyAnswers := by
  intro h
  have hpaced := h.paced (by decide)
  exact (hpaced 2 rfl (by decide)).2 1 (by decide) (by decide) rfl

end VizorWallet.Ledger
