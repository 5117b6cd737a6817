import Mathlib.Data.List.DropRight
import VizorWallet.Library.Base64Url

/-!
# Strings of UTF-16 code units

The strings of a language whose characters are 16-bit code units: trimming, counting words,
decimal integers, and padded Base64.

## Main results

* `trim_trim`, `trim_of_ends` — trimming is idempotent and leaves a string without outer blanks.
* `tryParseInteger_ofInt` — an integer reads back from its decimal text.
* `toBytes_ofBytes` — bytes read back from their code units.
-/

namespace VizorWallet

/-- A string of UTF-16 code units. -/
abbrev CodeUnits := List UInt16

namespace CodeUnits

/-- The code units of bytes that stand for themselves. -/
def ofBytes (bytes : Bytes) : CodeUnits := bytes.map (·.toUInt16)

/-- The low bytes of code units. -/
def toBytes (t : CodeUnits) : Bytes := t.map (·.toUInt8)

/-- The code units of an ASCII literal. -/
def literal (s : String) : CodeUnits := ofBytes (ascii s)

@[simp] theorem length_ofBytes (bytes : Bytes) : (ofBytes bytes).length = bytes.length := by
  simp [ofBytes]

theorem lt_of_mem_ofBytes {bytes : Bytes} (u : UInt16) (h : u ∈ ofBytes bytes) :
    u.toNat < 256 := by
  obtain ⟨b, -, rfl⟩ := List.mem_map.1 h
  simpa using b.toNat_lt

theorem lt_of_mem_literal {s : String} (u : UInt16) (h : u ∈ literal s) : u.toNat < 256 :=
  lt_of_mem_ofBytes u h

@[simp] theorem toBytes_ofBytes (bytes : Bytes) : toBytes (ofBytes bytes) = bytes := by
  simp [toBytes, ofBytes, Function.comp_def]

/-- Code units that are bytes read back from their low bytes. -/
theorem ofBytes_toBytes {t : CodeUnits} (h : ∀ u ∈ t, u.toNat < 256) :
    ofBytes (toBytes t) = t := by
  rw [ofBytes, toBytes, List.map_map]
  conv_rhs => rw [← List.map_id t]
  refine List.map_congr_left fun u hu => ?_
  rw [← UInt16.toNat_inj]
  simp [Nat.mod_eq_of_lt (h u hu)]

/-! ## Trimming -/

/-- White space of Unicode, or the byte order mark. -/
def isSpace (u : UInt16) : Bool :=
  (0x09 ≤ u && u ≤ 0x0d) || u == 0x20 || u == 0x85 || u == 0xa0 || u == 0x1680 ||
    (0x2000 ≤ u && u ≤ 0x200a) || u == 0x2028 || u == 0x2029 || u == 0x202f || u == 0x205f ||
    u == 0x3000 || u == 0xfeff

/-- Remove the white space at both ends. -/
def trim (t : CodeUnits) : CodeUnits := (t.dropWhile isSpace).rdropWhile isSpace

/-- A string without white space at its ends is left alone. -/
theorem trim_of_ends {t : CodeUnits} (hhead : ∀ u ∈ t.head?, isSpace u = false)
    (hlast : ∀ u ∈ t.getLast?, isSpace u = false) : trim t = t := by
  have hdrop : t.dropWhile isSpace = t := by
    cases t with
    | nil => rfl
    | cons u t => rw [List.dropWhile_cons_of_neg (by simp [hhead u rfl])]
  rw [trim, hdrop, List.rdropWhile_eq_self_iff]
  intro hne
  simp [hlast _ (List.getLast?_eq_some_getLast hne)]

theorem isSpace_head_trim {t : CodeUnits} : ∀ u ∈ (trim t).head?, isSpace u = false := by
  intro u hu
  obtain ⟨rest, hrest⟩ := List.rdropWhile_prefix isSpace (t.dropWhile isSpace)
  have hspace := List.head?_dropWhile_not isSpace t
  rw [← hrest, List.head?_append, show (List.rdropWhile isSpace _).head? = some u from hu]
    at hspace
  exact hspace

theorem isSpace_getLast_trim {t : CodeUnits} : ∀ u ∈ (trim t).getLast?, isSpace u = false := by
  intro u hu
  obtain ⟨hne, rfl⟩ := List.mem_getLast?_eq_getLast hu
  exact Bool.eq_false_iff.2 (List.rdropWhile_last_not isSpace (t.dropWhile isSpace) hne)

/-- The graphic characters of ASCII are not white space. -/
theorem isSpace_of_graphic {u : UInt16} (hlow : 0x21 ≤ u.toNat) (hhigh : u.toNat ≤ 0x7e) :
    isSpace u = false := by
  rw [← UInt16.ofNat_toNat (x := u)]
  generalize u.toNat = n at hlow hhigh
  interval_cases n <;> rfl

@[simp] theorem trim_trim (t : CodeUnits) : trim (trim t) = trim t :=
  trim_of_ends isSpace_head_trim isSpace_getLast_trim

/-- A string without white space is left alone. -/
theorem trim_of_forall {t : CodeUnits} (h : ∀ u ∈ t, isSpace u = false) : trim t = t :=
  trim_of_ends (fun u hu => h u (List.mem_of_mem_head? hu))
    fun u hu => h u (List.mem_of_mem_getLast? hu)

/-- A text with a code unit that is not blank. -/
theorem trim_ne_nil {u : UInt16} {t : CodeUnits} (hu : u ∈ t) (h : isSpace u = false) :
    trim t ≠ [] := by
  intro hnil
  rw [trim, List.rdropWhile_eq_nil_iff] at hnil
  -- The first unit that is not dropped is not blank.
  cases hdrop : t.dropWhile isSpace with
  | nil =>
    rw [List.dropWhile_eq_nil_iff.1 hdrop u hu] at h
    cases h
  | cons v rest =>
    have hv := List.head?_dropWhile_not isSpace t
    rw [hdrop] at hv hnil
    simp only [List.head?_cons] at hv
    rw [hnil v List.mem_cons_self] at hv
    cases hv

/-! ## Words -/

/-- The white space of a regular expression, `\s`. -/
def isRegexSpace (u : UInt16) : Bool := isSpace u && u != 0x85

/-- The pieces between runs of white space, `split(RegExp(r'\s+'))`. -/
def splitSpaces : CodeUnits → List CodeUnits
  | [] => [[]]
  | u :: t =>
    if isRegexSpace u then
      -- a run of white space is one separator
      if (t.head?.map isRegexSpace).getD false then splitSpaces t else [] :: splitSpaces t
    else (splitSpaces t).modifyHead (u :: ·)

/-- The number of words. -/
def wordCount (t : CodeUnits) : ℕ := (splitSpaces t).length

/-! ## Integers -/

/-- The code unit is a decimal digit. -/
def isDigit (u : UInt16) : Bool := 0x30 ≤ u && u ≤ 0x39

/-- An integer in decimal. -/
def ofInt : ℤ → CodeUnits
  | .ofNat n => ofBytes (decimal n)
  | .negSucc n => 0x2d :: ofBytes (decimal (n + 1))

theorem lt_of_mem_ofInt {n : ℤ} (u : UInt16) (h : u ∈ ofInt n) : u.toNat < 256 := by
  cases n with
  | ofNat n => exact lt_of_mem_ofBytes u h
  | negSucc n =>
    obtain rfl | h := List.mem_cons.1 h
    · decide
    · exact lt_of_mem_ofBytes u h

/-- The value of a hexadecimal digit. -/
def hexValue? (u : UInt16) : Option ℕ :=
  if 0x30 ≤ u ∧ u ≤ 0x39 then some (u.toNat - 0x30)
  else if 0x61 ≤ u ∧ u ≤ 0x66 then some (u.toNat - 0x61 + 10)
  else if 0x41 ≤ u ∧ u ≤ 0x46 then some (u.toNat - 0x41 + 10)
  else none

/-- A magnitude in hexadecimal after `0x`, or in decimal. -/
def tryParseMagnitude (t : CodeUnits) : Option ℕ :=
  if t.take 2 ∈ [literal "0x", literal "0X"] ∧ t.drop 2 ≠ [] then
    ((t.drop 2).mapM hexValue?).map fun digits => Nat.ofDigits 16 digits.reverse
  else if t ≠ [] ∧ t.all isDigit then some (ofDecimal (toBytes t))
  else none

/-- An integer with an optional sign. -/
def tryParseInteger (t : CodeUnits) : Option ℤ :=
  if t.head? = some 0x2d then (tryParseMagnitude t.tail).map fun n : ℕ => -(n : ℤ)
  else if t.head? = some 0x2b then (tryParseMagnitude t.tail).map fun n : ℕ => (n : ℤ)
  else (tryParseMagnitude t).map fun n : ℕ => (n : ℤ)

/-- A positive number in decimal without leading zeros, `^[1-9][0-9]*$`. -/
def isPositiveDecimal : CodeUnits → Bool
  | [] => false
  | u :: t => u != 0x30 && isDigit u && t.all isDigit

theorem isDigit_toUInt16 {b : UInt8} : isDigit b.toUInt16 = VizorWallet.isDigit b := by
  simp only [isDigit, VizorWallet.isDigit, UInt16.le_iff_toNat_le, UInt8.le_iff_toNat_le,
    UInt8.toNat_toUInt16]
  rfl

theorem all_isDigit_decimal (n : ℕ) : (ofBytes (decimal n)).all isDigit := by
  rw [List.all_eq_true]
  intro u hu
  obtain ⟨b, hb, rfl⟩ := List.mem_map.1 hu
  rw [isDigit_toUInt16]
  exact isDigit_of_mem_decimal hb

theorem tryParseMagnitude_decimal (n : ℕ) : tryParseMagnitude (ofBytes (decimal n)) = some n := by
  have hdigits := all_isDigit_decimal n
  have hne : ofBytes (decimal n) ≠ [] := by simpa [ofBytes] using decimal_ne_nil n
  have hhex : ¬ ((ofBytes (decimal n)).take 2 ∈ [literal "0x", literal "0X"] ∧
      (ofBytes (decimal n)).drop 2 ≠ []) := by
    rintro ⟨hmem, -⟩
    -- an `x` is not a digit
    have htake : ((ofBytes (decimal n)).take 2).all isDigit :=
      List.all_eq_true.2 fun u hu => List.all_eq_true.1 hdigits u (List.mem_of_mem_take hu)
    simp only [List.mem_cons, List.not_mem_nil, or_false] at hmem
    rcases hmem with hmem | hmem
    · rw [hmem] at htake
      exact absurd htake (by decide)
    · rw [hmem] at htake
      exact absurd htake (by decide)
  rw [tryParseMagnitude, if_neg hhex, if_pos ⟨hne, hdigits⟩, toBytes_ofBytes, ofDecimal_decimal]

/-- A positive number has no leading zero. -/
theorem ne_zero_of_decimal_eq_cons {n : ℕ} {b : UInt8} {rest : Bytes} (hn : n ≠ 0)
    (h : decimal n = b :: rest) : b ≠ 48 := by
  have hne : Nat.digits 10 n ≠ [] := Nat.digits_ne_nil_iff_ne_zero.2 hn
  have hlast := Nat.getLast_digit_ne_zero 10 hn
  have hlt := Nat.digits_lt_base (by decide : 1 < 10) (List.getLast_mem hne)
  have hhead : digitByte ((Nat.digits 10 n).getLast hne) = b := by
    rw [decimal, if_neg hn] at h
    have hhead := congrArg List.head? h
    rw [List.head?_map, List.head?_reverse, List.getLast?_eq_some_getLast hne] at hhead
    exact Option.some.inj hhead
  rintro rfl
  have hvalue := digitValue_digitByte hlt
  rw [hhead] at hvalue
  exact hlast hvalue.symm

theorem head?_decimal (n : ℕ) : ∃ u, (ofBytes (decimal n)).head? = some u ∧ isDigit u := by
  obtain ⟨b, rest, hdecimal⟩ := List.exists_cons_of_ne_nil (decimal_ne_nil n)
  refine ⟨b.toUInt16, by rw [hdecimal]; rfl, ?_⟩
  rw [isDigit_toUInt16]
  exact isDigit_of_mem_decimal (n := n) (by simp [hdecimal])

/-- An integer reads back from its decimal text. -/
theorem tryParseInteger_ofInt (n : ℤ) : tryParseInteger (ofInt n) = some n := by
  cases n with
  | ofNat n =>
    obtain ⟨u, hu, hdigit⟩ := head?_decimal n
    have hminus : u ≠ 0x2d := by rintro rfl; cases hdigit
    have hplus : u ≠ 0x2b := by rintro rfl; cases hdigit
    rw [ofInt, tryParseInteger, hu, if_neg (by simpa using hminus), if_neg (by simpa using hplus),
      tryParseMagnitude_decimal]
    rfl
  | negSucc n =>
    rw [ofInt, tryParseInteger, List.head?_cons, if_pos rfl, List.tail_cons,
      tryParseMagnitude_decimal]
    rfl

theorem isPositiveDecimal_ofInt {n : ℤ} (h : 0 < n) : isPositiveDecimal (ofInt n) := by
  obtain ⟨n, rfl⟩ := Int.eq_ofNat_of_zero_le h.le
  have hpos : n ≠ 0 := by omega
  have hall := all_isDigit_decimal n
  obtain ⟨b, rest, hdecimal⟩ := List.exists_cons_of_ne_nil (decimal_ne_nil n)
  have hb : b ≠ 48 := ne_zero_of_decimal_eq_cons hpos hdecimal
  have hunit : b.toUInt16 ≠ 0x30 := fun hzero => hb (UInt8.toUInt16_inj.1 hzero)
  rw [hdecimal] at hall
  simp only [ofBytes, List.map_cons, List.all_cons, Bool.and_eq_true] at hall
  simp [ofInt, hdecimal, ofBytes, isPositiveDecimal, hunit, hall.1, hall.2]

theorem isSpace_ofInt {n : ℤ} : ∀ u ∈ ofInt n, isSpace u = false := by
  have hdecimal : ∀ m : ℕ, ∀ u ∈ ofBytes (decimal m), isSpace u = false := by
    intro m u hu
    have hdigit := List.all_eq_true.1 (all_isDigit_decimal m) u hu
    simp only [isDigit, Bool.and_eq_true, decide_eq_true_eq, UInt16.le_iff_toNat_le] at hdigit
    exact isSpace_of_graphic (hdigit.1.trans' (by decide)) (hdigit.2.trans (by decide))
  cases n with
  | ofNat n => exact hdecimal n
  | negSucc n => exact List.forall_mem_cons.2 ⟨rfl, hdecimal (n + 1)⟩

/-! ## Base64 -/

/-- Base64, padded to a multiple of four characters. -/
def base64UrlEncode (bytes : Bytes) : CodeUnits :=
  ofBytes (Base64Url.encode bytes) ++ List.replicate ((3 - bytes.length % 3) % 3) 0x3d

/-- The code unit is of the alphabet, `[A-Za-z0-9_-]`. -/
def isUrlSafe (u : UInt16) : Bool :=
  (0x41 ≤ u && u ≤ 0x5a) || (0x61 ≤ u && u ≤ 0x7a) || isDigit u || u == 0x2d || u == 0x5f

theorem isUrlSafe_digit {n : ℕ} (h : n < 64) : isUrlSafe (Base64Url.digit n).toUInt16 := by
  interval_cases n <;> rfl

theorem isUrlSafe_of_mem_encode {bytes : Bytes} {u : UInt16}
    (h : u ∈ ofBytes (Base64Url.encode bytes)) : isUrlSafe u := by
  obtain ⟨b, hb, rfl⟩ := List.mem_map.1 h
  obtain ⟨n, hn, rfl⟩ := List.mem_map.1 hb
  exact isUrlSafe_digit (Base64Url.sextets_lt hn)

theorem ne_pad_of_isUrlSafe {u : UInt16} (h : isUrlSafe u) : u ≠ 0x3d := by
  rintro rfl
  cases h

theorem isSpace_of_isUrlSafe {u : UInt16} (h : isUrlSafe u) : isSpace u = false := by
  simp only [isUrlSafe, isDigit, Bool.or_eq_true, Bool.and_eq_true, decide_eq_true_eq, beq_iff_eq,
    UInt16.le_iff_toNat_le, ← UInt16.toNat_inj, UInt16.reduceToNat] at h
  exact isSpace_of_graphic (by omega) (by omega)

/-- The characters of a padded encoding are those of the alphabet and the padding. -/
theorem isUrlSafe_or_eq_pad {bytes : Bytes} {u : UInt16} (h : u ∈ base64UrlEncode bytes) :
    isUrlSafe u ∨ u = 0x3d :=
  (List.mem_append.1 h).imp isUrlSafe_of_mem_encode List.eq_of_mem_replicate

/-- An encoding of the library has no padding. -/
theorem filter_encode (bytes : Bytes) :
    (ofBytes (Base64Url.encode bytes)).filter (· ≠ 0x3d) = ofBytes (Base64Url.encode bytes) :=
  List.filter_eq_self.2 fun _ hu =>
    decide_eq_true (ne_pad_of_isUrlSafe (isUrlSafe_of_mem_encode hu))

/-- Without its padding an encoding is that of the library. -/
theorem filter_base64UrlEncode (bytes : Bytes) :
    (base64UrlEncode bytes).filter (· ≠ 0x3d) = ofBytes (Base64Url.encode bytes) := by
  rw [base64UrlEncode, List.filter_append, filter_encode, List.filter_replicate]
  simp

theorem length_base64UrlEncode (bytes : Bytes) :
    (base64UrlEncode bytes).length = 4 * ((bytes.length + 2) / 3) := by
  rw [base64UrlEncode, List.length_append, length_ofBytes, Base64Url.length_encode,
    List.length_replicate]
  omega

theorem base64UrlEncode_ne_nil {bytes : Bytes} (h : bytes ≠ []) : base64UrlEncode bytes ≠ [] := by
  rw [← List.length_pos_iff] at h ⊢
  rw [length_base64UrlEncode]
  omega

end CodeUnits

end VizorWallet
