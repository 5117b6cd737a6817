import Mathlib.Data.List.Basic
import Mathlib.Data.Nat.Digits.Lemmas
import Mathlib.Tactic.SplitIfs

/-!
# Bytes

Byte strings, ASCII text, the encoding of a string, and decimal numerals.

## Main results

* `exists_utf8_of_isAscii` — ASCII text is the encoding of a string.
* `isAscii_decimal`, `ofDecimal_decimal` — a numeral is ASCII text and spells its number.
* `length_decimal_le` — the digits of a bounded number.
-/

namespace VizorWallet

/-- A string of bytes. -/
abbrev Bytes := List UInt8

/-- A string of exactly `n` bytes. -/
abbrev Fixed (n : ℕ) := {bytes : Bytes // bytes.length = n}

instance lawfulBEqBytes : LawfulBEq Bytes := inferInstance

instance lawfulBEqHash : LawfulBEq (Fixed 32) := inferInstance

/-- One byte, `n` times. -/
def Fixed.replicate (n : ℕ) (byte : UInt8) : Fixed n :=
  ⟨List.replicate n byte, List.length_replicate⟩

/-- The bytes of an ASCII literal. -/
def ascii (s : String) : Bytes := s.toList.map fun c => c.toNat.toUInt8

/-- Every byte is ASCII. -/
def isAscii (b : Bytes) : Bool := b.all (· < 0x80)

@[simp] theorem isAscii_nil : isAscii [] = true := rfl

@[simp] theorem isAscii_cons (b : UInt8) (bs : Bytes) :
    isAscii (b :: bs) = (decide (b < 0x80) && isAscii bs) := rfl

@[simp] theorem isAscii_append (a b : Bytes) : isAscii (a ++ b) = (isAscii a && isAscii b) := by
  simp [isAscii]

theorem isAscii_iff {b : Bytes} : isAscii b ↔ ∀ x ∈ b, x < 0x80 := by
  simp [isAscii]

/-! ## UTF-8 -/

/-- The UTF-8 bytes of a string. -/
def utf8 (s : String) : Bytes := s.toList.flatMap String.utf8EncodeChar

theorem utf8EncodeChar_of_ascii {x : UInt8} (h : x < 0x80) :
    String.utf8EncodeChar (Char.ofNat x.toNat) = [x] := by
  have hencode : ∀ n, n < 128 → String.utf8EncodeChar (Char.ofNat n) = [UInt8.ofNat n] := by decide
  rw [hencode x.toNat (UInt8.lt_iff_toNat_lt.1 h), UInt8.ofNat_toNat]

theorem exists_utf8_of_isAscii {b : Bytes} (h : isAscii b) : ∃ s, utf8 s = b := by
  refine ⟨String.ofList (b.map fun x => Char.ofNat x.toNat), ?_⟩
  rw [utf8, String.toList_ofList, List.flatMap_map]
  induction b with
  | nil => rfl
  | cons x b ih =>
    simp only [isAscii_cons, Bool.and_eq_true, decide_eq_true_eq] at h
    rw [List.flatMap_cons, utf8EncodeChar_of_ascii h.1, ih h.2]
    rfl

/-! ## Decimal numerals -/

/-- The numeral of a digit. -/
def digitByte (d : ℕ) : UInt8 := UInt8.ofNat (48 + d)

/-- The numeral is a digit. -/
def isDigit (b : UInt8) : Bool := 48 ≤ b && b ≤ 57

/-- The digit of a numeral. -/
def digitValue (b : UInt8) : ℕ := b.toNat - 48

/-- A number in decimal. -/
def decimal (n : ℕ) : Bytes :=
  if n = 0 then [48] else (Nat.digits 10 n).reverse.map digitByte

/-- The number that decimal digits spell. -/
def ofDecimal (digits : Bytes) : ℕ := Nat.ofDigits 10 (digits.reverse.map digitValue)

theorem isDigit_digitByte {d : ℕ} (h : d < 10) : isDigit (digitByte d) := by
  interval_cases d <;> rfl

theorem digitValue_digitByte {d : ℕ} (h : d < 10) : digitValue (digitByte d) = d := by
  interval_cases d <;> rfl

theorem isDigit_of_mem_decimal {n : ℕ} {b : UInt8} (h : b ∈ decimal n) : isDigit b := by
  rw [decimal] at h
  split_ifs at h
  · obtain rfl := List.mem_singleton.1 h
    rfl
  · obtain ⟨d, hd, rfl⟩ := List.mem_map.1 h
    exact isDigit_digitByte (Nat.digits_lt_base (by decide) (List.mem_reverse.1 hd))

theorem decimal_ne_nil (n : ℕ) : decimal n ≠ [] := by
  rw [decimal]
  split_ifs with h
  · simp
  · simpa using Nat.digits_ne_nil_iff_ne_zero.2 h

theorem isAscii_decimal (n : ℕ) : isAscii (decimal n) := by
  refine isAscii_iff.2 fun b hb => ?_
  have hdigit := isDigit_of_mem_decimal hb
  simp only [isDigit, Bool.and_eq_true, decide_eq_true_eq, UInt8.le_iff_toNat_le] at hdigit
  rw [UInt8.lt_iff_toNat_lt]
  exact hdigit.2.trans_lt (by decide)

theorem ofDecimal_decimal (n : ℕ) : ofDecimal (decimal n) = n := by
  rw [decimal]
  split_ifs with h
  · rw [h]
    rfl
  · have hdigits : (Nat.digits 10 n).map (digitValue ∘ digitByte) = Nat.digits 10 n := by
      conv_rhs => rw [← List.map_id (Nat.digits 10 n)]
      exact List.map_congr_left fun d hd =>
        digitValue_digitByte (Nat.digits_lt_base (by decide) hd)
    rw [ofDecimal, ← List.map_reverse, List.reverse_reverse, List.map_map, hdigits,
      Nat.ofDigits_digits]

theorem length_decimal_mono {n m : ℕ} (h : n ≤ m) : (decimal n).length ≤ (decimal m).length := by
  rcases Nat.eq_zero_or_pos n with rfl | hn
  · exact List.length_pos_iff.2 (decimal_ne_nil m)
  · rw [decimal, decimal, if_neg (by omega), if_neg (by omega)]
    simpa using Nat.le_length_digits_le 10 n m h

theorem length_decimal_le {n k : ℕ} (hk : 0 < k) (h : n < 10 ^ k) : (decimal n).length ≤ k := by
  rw [decimal]
  split_ifs
  · exact hk
  · rw [List.length_map, List.length_reverse]
    exact (Nat.digits_length_le_iff (by decide) n).2 h

end VizorWallet
