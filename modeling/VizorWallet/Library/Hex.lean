import VizorWallet.Library.Bytes

/-!
# Hexadecimal text

Two lower-case digits a byte; both cases are read.

## Main results

* `decode_encode` — a text decodes to the bytes it encodes.
* `decode_eq_some` — the texts that decode to some bytes differ in the case of their digits only.
-/

namespace VizorWallet.Hex

/-- A lower-case hexadecimal digit. -/
def digit (n : ℕ) : UInt8 := if n < 10 then UInt8.ofNat (48 + n) else UInt8.ofNat (87 + n)

/-- The value of a hexadecimal digit. -/
def value? (c : UInt8) : Option ℕ :=
  if 48 ≤ c ∧ c ≤ 57 then some (c.toNat - 48)
  else if 97 ≤ c ∧ c ≤ 102 then some (c.toNat - 87)
  else if 65 ≤ c ∧ c ≤ 70 then some (c.toNat - 55)
  else none

/-- The digits of a list of bytes. -/
def encode (bytes : Bytes) : Bytes :=
  bytes.flatMap fun b => [digit (b.toNat / 16), digit (b.toNat % 16)]

/-- The bytes of a text of digits. -/
def decode : Bytes → Option Bytes
  | [] => some []
  | [_] => none
  | high :: low :: rest => do
    let h ← value? high
    let l ← value? low
    let bytes ← decode rest
    return UInt8.ofNat (16 * h + l) :: bytes

theorem value?_digit : ∀ n, n < 16 → value? (digit n) = some n := by decide

/-- The digits of a byte are its value. -/
theorem ofNat_digits (b : UInt8) : UInt8.ofNat (16 * (b.toNat / 16) + b.toNat % 16) = b := by
  rw [Nat.div_add_mod, UInt8.ofNat_toNat]

/-- A text decodes to the bytes it encodes. -/
theorem decode_encode (bytes : Bytes) : decode (encode bytes) = some bytes := by
  induction bytes with
  | nil => rfl
  | cons b bytes ih =>
    have hb := b.toNat_lt
    have hencode : encode (b :: bytes) =
        digit (b.toNat / 16) :: digit (b.toNat % 16) :: encode bytes := rfl
    simp only [hencode, decode, value?_digit (b.toNat / 16) (by omega),
      value?_digit (b.toNat % 16) (by omega), ih, Option.bind_eq_bind, Option.bind_some,
      Option.pure_def, ofNat_digits]

/-- The lower case of an ASCII letter. -/
def lower (c : UInt8) : UInt8 := if 65 ≤ c ∧ c ≤ 90 then c + 32 else c

theorem lower_digit : ∀ n, n < 16 → lower (digit n) = digit n := by decide

theorem value?_lower (c : UInt8) : value? (lower c) = value? c := by
  have hall : ∀ n, n < 256 → value? (lower (UInt8.ofNat n)) = value? (UInt8.ofNat n) := by
    decide +kernel
  simpa using hall c.toNat c.toNat_lt

theorem value?_eq_some {c : UInt8} {n : ℕ} : value? c = some n ↔ n < 16 ∧ lower c = digit n := by
  constructor
  · have hall : ∀ m, m < 256 → ∀ n ∈ value? (UInt8.ofNat m),
        n < 16 ∧ lower (UInt8.ofNat m) = digit n := by decide +kernel
    intro h
    have hdigit := hall c.toNat c.toNat_lt n
    rw [UInt8.ofNat_toNat] at hdigit
    exact hdigit h
  · rintro ⟨hn, h⟩
    rw [← value?_lower, h, value?_digit n hn]

theorem encode_cons (b : UInt8) (bytes : Bytes) :
    encode (b :: bytes) = digit (b.toNat / 16) :: digit (b.toNat % 16) :: encode bytes := rfl

@[simp] theorem map_lower_encode (bytes : Bytes) : (encode bytes).map lower = encode bytes := by
  induction bytes with
  | nil => rfl
  | cons b bytes ih =>
    have hb := b.toNat_lt
    rw [encode_cons, List.map_cons, List.map_cons, ih, lower_digit _ (by omega),
      lower_digit _ (by omega)]

/-- A text decodes to some bytes when it is their text but for the case of its digits. -/
theorem decode_eq_some {text bytes : Bytes} :
    decode text = some bytes ↔ text.map lower = encode bytes := by
  fun_induction decode text generalizing bytes with
  | case1 =>
    cases bytes with
    | nil => simp [encode]
    | cons b bytes => simp [encode_cons]
  | case2 c =>
    cases bytes with
    | nil => simp [encode]
    | cons b bytes => simp [encode_cons]
  | case3 high low rest ih =>
    cases bytes with
    | nil => simp [encode, Option.bind_eq_some_iff]
    | cons b bytes =>
      have hb := b.toNat_lt
      simp only [Option.bind_eq_bind, Option.bind_eq_some_iff, Option.pure_def, Option.some.injEq,
        List.map_cons, encode_cons, List.cons.injEq, value?_eq_some, ih]
      constructor
      · rintro ⟨h, ⟨hh, hhigh⟩, l, ⟨hl, hlow⟩, rest', hrest, rfl, rfl⟩
        have hbyte : (UInt8.ofNat (16 * h + l)).toNat = 16 * h + l := by
          rw [UInt8.toNat_ofNat', Nat.mod_eq_of_lt (by omega)]
        rw [hbyte]
        refine ⟨?_, ?_, hrest⟩
        · rw [hhigh, show (16 * h + l) / 16 = h by omega]
        · rw [hlow, show (16 * h + l) % 16 = l by omega]
      · rintro ⟨hhigh, hlow, hrest⟩
        exact ⟨_, ⟨by omega, hhigh⟩, _, ⟨by omega, hlow⟩, _, hrest, ofNat_digits b, rfl⟩

theorem encode_injective : Function.Injective encode := by
  intro a b h
  have hdecode := congrArg decode h
  rw [decode_encode, decode_encode] at hdecode
  exact Option.some.inj hdecode

theorem length_encode (bytes : Bytes) : (encode bytes).length = 2 * bytes.length := by
  induction bytes with
  | nil => rfl
  | cons b bytes ih =>
    rw [encode_cons, List.length_cons, List.length_cons, List.length_cons, ih]
    omega

end VizorWallet.Hex
