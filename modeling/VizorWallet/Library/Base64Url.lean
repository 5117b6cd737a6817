import VizorWallet.Library.Bytes

/-!
# Unpadded URL-safe Base64

Three bytes are four characters of six bits; two and one remaining bytes are three and two
characters whose unused bits are zero.

## Main results

* `decode_encode` — a text decodes to the bytes it encodes.
* `length_encode` — the length of an encoding.
-/

namespace VizorWallet.Base64Url

/-- The character of six bits. -/
def digit (n : ℕ) : UInt8 :=
  if n < 26 then UInt8.ofNat (65 + n)
  else if n < 52 then UInt8.ofNat (97 + (n - 26))
  else if n < 62 then UInt8.ofNat (48 + (n - 52))
  else if n = 62 then 45
  else 95

/-- The six bits of a character. -/
def value? (c : UInt8) : Option ℕ :=
  if 65 ≤ c ∧ c ≤ 90 then some (c.toNat - 65)
  else if 97 ≤ c ∧ c ≤ 122 then some (c.toNat - 97 + 26)
  else if 48 ≤ c ∧ c ≤ 57 then some (c.toNat - 48 + 52)
  else if c = 45 then some 62
  else if c = 95 then some 63
  else none

/-- The character is alphanumeric, a hyphen or an underscore. -/
def isUrlSafe (c : UInt8) : Bool := (value? c).isSome

/-- The six-bit values of a list of bytes. -/
def sextets : Bytes → List ℕ
  | [] => []
  | [a] => [a.toNat / 4, a.toNat % 4 * 16]
  | [a, b] => [a.toNat / 4, a.toNat % 4 * 16 + b.toNat / 16, b.toNat % 16 * 4]
  | a :: b :: c :: rest =>
    a.toNat / 4 :: (a.toNat % 4 * 16 + b.toNat / 16) :: (b.toNat % 16 * 4 + c.toNat / 64) ::
      c.toNat % 64 :: sextets rest

/-- The characters of a list of bytes. -/
def encode (bytes : Bytes) : Bytes := (sextets bytes).map digit

/-- The bytes of a list of six-bit values. -/
def pack : List ℕ → Option Bytes
  | [] => some []
  | [_] => none
  | [w, x] => if x % 16 = 0 then some [UInt8.ofNat (w * 4 + x / 16)] else none
  | [w, x, y] =>
    if y % 4 = 0 then some [UInt8.ofNat (w * 4 + x / 16), UInt8.ofNat (x % 16 * 16 + y / 4)]
    else none
  | w :: x :: y :: z :: rest => (pack rest).map fun bytes =>
    UInt8.ofNat (w * 4 + x / 16) :: UInt8.ofNat (x % 16 * 16 + y / 4) ::
      UInt8.ofNat (y % 4 * 64 + z) :: bytes

/-- The bytes of a text. -/
def decode (text : Bytes) : Option Bytes := (text.mapM value?).bind pack

theorem value?_digit {n : ℕ} (h : n < 64) : value? (digit n) = some n := by
  interval_cases n <;> rfl

theorem isUrlSafe_digit {n : ℕ} (h : n < 64) : isUrlSafe (digit n) := by
  rw [isUrlSafe, value?_digit h]
  rfl

theorem sextets_lt {bytes : Bytes} {n : ℕ} (h : n ∈ sextets bytes) : n < 64 := by
  induction bytes using sextets.induct with
  | case1 => simp [sextets] at h
  | case2 a =>
    have ha := a.toNat_lt
    simp only [sextets, List.mem_cons, List.not_mem_nil, or_false] at h
    omega
  | case3 a b =>
    have ha := a.toNat_lt
    have hb := b.toNat_lt
    simp only [sextets, List.mem_cons, List.not_mem_nil, or_false] at h
    omega
  | case4 a b c rest ih =>
    have ha := a.toNat_lt
    have hb := b.toNat_lt
    have hc := c.toNat_lt
    simp only [sextets, List.mem_cons] at h
    obtain h | h | h | h | h := h
    · omega
    · omega
    · omega
    · omega
    · exact ih h

theorem length_sextets (bytes : Bytes) : (sextets bytes).length = (4 * bytes.length + 2) / 3 := by
  induction bytes using sextets.induct with
  | case1 => rfl
  | case2 a => simp [sextets]
  | case3 a b => simp [sextets]
  | case4 a b c rest ih =>
    simp only [sextets, List.length_cons, ih]
    omega

theorem ofNat_eq {n : ℕ} {b : UInt8} (h : n = b.toNat) : UInt8.ofNat n = b := by
  rw [h, UInt8.ofNat_toNat]

/-- The six-bit values of a list of bytes pack to it. -/
theorem pack_sextets (bytes : Bytes) : pack (sextets bytes) = some bytes := by
  induction bytes using sextets.induct with
  | case1 => rfl
  | case2 a =>
    rw [sextets, pack, if_pos (by omega), ofNat_eq]
    omega
  | case3 a b =>
    have hb := b.toNat_lt
    rw [sextets, pack, if_pos (by omega), ofNat_eq (b := a) (by omega),
      ofNat_eq (b := b) (by omega)]
  | case4 a b c rest ih =>
    have hb := b.toNat_lt
    have hc := c.toNat_lt
    rw [sextets, pack, ih, Option.map_some, ofNat_eq (b := a) (by omega),
      ofNat_eq (b := b) (by omega), ofNat_eq (b := c) (by omega)]

/-- A text decodes to the bytes it encodes. -/
theorem decode_encode (bytes : Bytes) : decode (encode bytes) = some bytes := by
  have hvalues : ∀ l : List ℕ, (∀ n ∈ l, n < 64) → (l.map digit).mapM value? = some l := by
    intro l
    induction l with
    | nil => simp
    | cons n l ih =>
      intro h
      simp [value?_digit (h n (by simp)), ih fun m hm => h m (by simp [hm])]
  rw [decode, encode, hvalues _ fun n hn => sextets_lt hn, Option.bind_some, pack_sextets]

theorem encode_injective : Function.Injective encode := by
  intro a b h
  have hdecode := decode_encode a
  rw [h, decode_encode] at hdecode
  exact (Option.some.inj hdecode).symm

/-- The length of an encoding. -/
theorem length_encode (bytes : Bytes) : (encode bytes).length = (4 * bytes.length + 2) / 3 := by
  rw [encode, List.length_map, length_sextets]

/-- The characters of an encoding are those of the alphabet. -/
theorem isUrlSafe_of_mem_encode {bytes : Bytes} {c : UInt8} (h : c ∈ encode bytes) :
    isUrlSafe c := by
  obtain ⟨n, hn, rfl⟩ := List.mem_map.1 h
  exact isUrlSafe_digit (sextets_lt hn)

theorem isAscii_of_isUrlSafe {text : Bytes} (h : ∀ c ∈ text, isUrlSafe c) : isAscii text := by
  refine isAscii_iff.2 fun c hc => ?_
  have hsafe := h c hc
  simp only [isUrlSafe, value?, UInt8.le_iff_toNat_le] at hsafe
  rw [UInt8.lt_iff_toNat_lt]
  split_ifs at hsafe with h1 h2 h3 h4 h5
  · exact h1.2.trans_lt (by decide)
  · exact h2.2.trans_lt (by decide)
  · exact h3.2.trans_lt (by decide)
  · rw [h4]
    decide
  · rw [h5]
    decide
  · cases hsafe

end VizorWallet.Base64Url
