import VizorWallet.Library.Hex
import VizorWallet.Machine

/-!
# Compact JSON

Values, their compact text, and a reader of that text.

## Main definitions

* `Value.print` — the compact text of a value.
* `Value.Plain` — nulls, 64-bit naturals, ASCII strings and arrays of these.
* `Value.Textual` — the same with strings of any characters.
* `Value.depth` — how deeply the arrays and objects of a value are nested.
* `read` — a reader of compact texts.

## Main results

* `read_print` — a value of strings, naturals and nulls reads back from its text.
* `Value.Plain.isAscii_print` — the text of a plain value is ASCII.
* `length_print_string_le`, `length_print_array` — the length of a text.
-/

namespace VizorWallet.Json

/-- A JSON value. Numbers other than naturals are kept as their text. -/
inductive Value where
  | null
  | bool (b : Bool)
  | number (n : ℕ)
  | otherNumber (text : Bytes)
  | string (s : Bytes)
  | array (items : List Value)
  | object (members : List (Bytes × Value))

namespace Value

mutual

/-- Equality of values is decidable. -/
protected def decEq (v w : Value) : Decidable (v = w) :=
  if h : v.ctorIdx = w.ctorIdx then
    match v, w, h with
    | .null, .null, _ => isTrue rfl
    | .bool a, .bool b, _ => decidable_of_iff (a = b) (by simp)
    | .number m, .number n, _ => decidable_of_iff (m = n) (by simp)
    | .otherNumber s, .otherNumber t, _ => decidable_of_iff (s = t) (by simp)
    | .string s, .string t, _ => decidable_of_iff (s = t) (by simp)
    | .array vs, .array ws, _ =>
      have := Value.decEqItems vs ws
      decidable_of_iff (vs = ws) (by simp)
    | .object vs, .object ws, _ =>
      have := Value.decEqMembers vs ws
      decidable_of_iff (vs = ws) (by simp)
  else isFalse fun heq => h (heq ▸ rfl)

protected def decEqItems (vs ws : List Value) : Decidable (vs = ws) :=
  match vs, ws with
  | [], [] => isTrue rfl
  | v :: vs, w :: ws =>
    have := Value.decEq v w
    have := Value.decEqItems vs ws
    decidable_of_iff (v = w ∧ vs = ws) (by simp)
  | [], _ :: _ => isFalse nofun
  | _ :: _, [] => isFalse nofun

protected def decEqMembers (vs ws : List (Bytes × Value)) : Decidable (vs = ws) :=
  match vs, ws with
  | [], [] => isTrue rfl
  | (k, v) :: vs, (l, w) :: ws =>
    have := Value.decEq v w
    have := Value.decEqMembers vs ws
    decidable_of_iff ((k = l ∧ v = w) ∧ vs = ws) (by simp)
  | [], _ :: _ => isFalse nofun
  | _ :: _, [] => isFalse nofun

end

instance : DecidableEq Value := Value.decEq

instance : Inhabited Value := ⟨null⟩

/-! ## The text of a value -/

/-- A byte inside a string. -/
def escape (b : UInt8) : Bytes :=
  if b = 0x22 then [0x5c, 0x22]
  else if b = 0x5c then [0x5c, 0x5c]
  else if b = 0x08 then [0x5c, 0x62]
  else if b = 0x0c then [0x5c, 0x66]
  else if b = 0x0a then [0x5c, 0x6e]
  else if b = 0x0d then [0x5c, 0x72]
  else if b = 0x09 then [0x5c, 0x74]
  else if b < 0x20 then
    [0x5c, 0x75, 0x30, 0x30, Hex.digit (b.toNat / 16), Hex.digit (b.toNat % 16)]
  else [b]

/-- A string in quotes. -/
def printString (s : Bytes) : Bytes := 0x22 :: s.flatMap escape ++ [0x22]

mutual

/-- The compact text of a value. -/
def print : Value → Bytes
  | null => ascii "null"
  | bool b => if b then ascii "true" else ascii "false"
  | number n => decimal n
  | otherNumber text => text
  | string s => printString s
  | array [] => [0x5b, 0x5d]
  | array (v :: vs) => 0x5b :: (print v ++ printTail vs)
  | object [] => [0x7b, 0x7d]
  | object ((k, v) :: vs) => 0x7b :: (printString k ++ 0x3a :: (print v ++ printMembers vs))

/-- The remaining items of an array. -/
def printTail : List Value → Bytes
  | [] => [0x5d]
  | v :: vs => 0x2c :: (print v ++ printTail vs)

/-- The remaining members of an object. -/
def printMembers : List (Bytes × Value) → Bytes
  | [] => [0x7d]
  | (k, v) :: vs => 0x2c :: (printString k ++ 0x3a :: (print v ++ printMembers vs))

end

/-- Nulls, 64-bit naturals, ASCII strings, and arrays of these. -/
inductive Plain : Value → Prop
  | null : Plain .null
  | number {n : ℕ} (h : n < u64Size) : Plain (.number n)
  | string {s : Bytes} (h : isAscii s) : Plain (.string s)
  | array {vs : List Value} (h : ∀ v ∈ vs, Plain v) : Plain (.array vs)

/-- Nulls, 64-bit naturals, strings of any characters, and arrays of these. -/
inductive Textual : Value → Prop
  | null : Textual .null
  | number {n : ℕ} (h : n < u64Size) : Textual (.number n)
  | string (s : String) : Textual (.string (utf8 s))
  | array {vs : List Value} (h : ∀ v ∈ vs, Textual v) : Textual (.array vs)

theorem Plain.textual {v : Value} (h : Plain v) : Textual v := by
  induction h with
  | null => exact .null
  | number h => exact .number h
  | string h =>
    obtain ⟨s, rfl⟩ := exists_utf8_of_isAscii h
    exact .string s
  | array _ ih => exact .array ih

mutual

/-- How many arrays and objects are open around the innermost item. -/
def depth : Value → ℕ
  | array vs => depthItems vs + 1
  | object vs => depthMembers vs + 1
  | null | bool _ | number _ | otherNumber _ | string _ => 0

/-- The depth of the deepest item. -/
def depthItems : List Value → ℕ
  | [] => 0
  | v :: vs => max (depth v) (depthItems vs)

/-- The depth of the deepest member. -/
def depthMembers : List (Bytes × Value) → ℕ
  | [] => 0
  | (_, v) :: vs => max (depth v) (depthMembers vs)

end

theorem depth_array_le {vs : List Value} {d : ℕ} :
    (array vs).depth ≤ d + 1 ↔ ∀ v ∈ vs, v.depth ≤ d := by
  rw [depth, Nat.add_le_add_iff_right]
  induction vs with
  | nil => simp [depthItems]
  | cons v vs ih => simp [depthItems, ih]

/-- The items of an array. -/
def items? : Value → Option (List Value)
  | array vs => some vs
  | _ => none

/-- The bytes of a string. -/
def string? : Value → Option Bytes
  | string s => some s
  | _ => none

/-- A natural number. -/
def number? : Value → Option ℕ
  | number n => some n
  | _ => none

@[simp] theorem items?_eq_some {v : Value} {vs : List Value} :
    v.items? = some vs ↔ v = array vs := by
  cases v <;> simp [items?]

@[simp] theorem string?_eq_some {v : Value} {s : Bytes} : v.string? = some s ↔ v = string s := by
  cases v <;> simp [string?]

@[simp] theorem number?_eq_some {v : Value} {n : ℕ} : v.number? = some n ↔ v = number n := by
  cases v <;> simp [number?]

end Value

open Value

/-! ## The length of a text -/

theorem length_escape_le (b : UInt8) : (escape b).length ≤ 6 := by
  unfold escape
  split_ifs <;> simp

theorem length_printString_le (s : Bytes) : (printString s).length ≤ 6 * s.length + 2 := by
  have hflat : ∀ t : Bytes, (t.flatMap escape).length ≤ 6 * t.length := by
    intro t
    induction t with
    | nil => simp
    | cons b t ih =>
      have hb := length_escape_le b
      simp only [List.flatMap_cons, List.length_append, List.length_cons]
      omega
  have hs := hflat s
  simp only [printString, List.length_append, List.length_cons, List.length_nil]
  omega

/-- A byte that stands for itself inside a string. -/
def IsBare (b : UInt8) : Prop := escape b = [b]

theorem length_printString_of_bare {s : Bytes} (h : ∀ b ∈ s, IsBare b) :
    (printString s).length = s.length + 2 := by
  have hflat : s.flatMap escape = s := by
    induction s with
    | nil => rfl
    | cons b s ih =>
      rw [List.flatMap_cons, h b (by simp), ih fun b hb => h b (by simp [hb])]
      rfl
  simp [printString, hflat]

theorem length_printTail (vs : List Value) :
    (printTail vs).length = 1 + (vs.map fun v => 1 + (print v).length).sum := by
  induction vs with
  | nil => simp [printTail]
  | cons v vs ih =>
    simp only [printTail, List.length_cons, List.length_append, ih, List.map_cons, List.sum_cons]
    omega

/-- Each item costs one byte more than its text, and the array one more. -/
theorem length_print_array {vs : List Value} (h : vs ≠ []) :
    (print (.array vs)).length = 1 + (vs.map fun v => 1 + (print v).length).sum := by
  cases vs with
  | nil => exact absurd rfl h
  | cons v vs =>
    simp only [print, List.length_cons, List.length_append, length_printTail, List.map_cons,
      List.sum_cons]
    omega

/-! ## ASCII text -/

theorem isAscii_escape {b : UInt8} (h : b < 0x80) : isAscii (escape b) := by
  have hlt : b.toNat < 128 := UInt8.lt_iff_toNat_lt.1 h
  unfold escape
  split_ifs with h1 h2 h3 h4 h5 h6 h7 h8
  any_goals rfl
  · have hhex : ∀ d, d < 16 → Hex.digit d < 0x80 := by decide
    simp [hhex (b.toNat / 16) (by omega), hhex (b.toNat % 16) (by omega)]
  · simp [h]

theorem isAscii_printString {s : Bytes} (h : isAscii s) : isAscii (printString s) := by
  have hflat : isAscii (s.flatMap escape) := by
    refine isAscii_iff.2 fun x hx => ?_
    obtain ⟨b, hb, hx⟩ := List.mem_flatMap.1 hx
    exact isAscii_iff.1 (isAscii_escape (isAscii_iff.1 h b hb)) x hx
  simp [printString, hflat]

theorem isAscii_printTail {vs : List Value} (h : ∀ v ∈ vs, isAscii (print v)) :
    isAscii (printTail vs) := by
  induction vs with
  | nil => rfl
  | cons v vs ih =>
    simp [printTail, h v (by simp), ih fun w hw => h w (by simp [hw])]

theorem Value.Plain.isAscii_print {v : Value} (h : Plain v) : isAscii (print v) := by
  induction h with
  | null => rfl
  | number => simpa [print] using isAscii_decimal _
  | string hs => simpa [print] using isAscii_printString hs
  | @array vs _ ih =>
    cases vs with
    | nil => rfl
    | cons v vs =>
      have htail : isAscii (printTail vs) := isAscii_printTail fun w hw => ih w (by simp [hw])
      simp [print, ih v (by simp), htail]

/-! ## Reading a text -/

/-- The byte a short escape stands for. -/
def unescape (b : UInt8) : UInt8 :=
  if b = 0x62 then 0x08
  else if b = 0x66 then 0x0c
  else if b = 0x6e then 0x0a
  else if b = 0x72 then 0x0d
  else if b = 0x74 then 0x09
  else b

/-- The rest of a string after its opening quote, and the text after it. -/
def readString : Bytes → Option (Bytes × Bytes)
  | [] => none
  | b :: rest =>
    if b = 0x22 then some ([], rest)
    else if b = 0x5c then
      match rest with
      | [] => none
      | c :: rest =>
        if c = 0x75 then
          match rest with
          | _ :: _ :: high :: low :: rest => do
            let h ← Hex.value? high
            let l ← Hex.value? low
            let (s, rest) ← readString rest
            return (UInt8.ofNat (16 * h + l) :: s, rest)
          | _ => none
        else (readString rest).map fun (s, rest) => (unescape c :: s, rest)
    else (readString rest).map fun (s, rest) => (b :: s, rest)

mutual

/-- A value and the text after it, with fuel for its length. -/
def readValue : ℕ → Bytes → Option (Value × Bytes)
  | 0, _ => none
  | _ + 1, [] => none
  | fuel + 1, b :: rest =>
    if b = 0x22 then (readString rest).map fun (s, rest) => (.string s, rest)
    else if b = 0x6e then some (.null, rest.drop 3)
    else if b = 0x5b then
      if rest.head? = some 0x5d then some (.array [], rest.tail)
      else do
        let (v, rest) ← readValue fuel rest
        let (vs, rest) ← readTail fuel rest
        return (.array (v :: vs), rest)
    else if isDigit b then
      some (.number (ofDecimal ((b :: rest).takeWhile isDigit)), (b :: rest).dropWhile isDigit)
    else none

/-- The remaining items of an array, and the text after it. -/
def readTail : ℕ → Bytes → Option (List Value × Bytes)
  | 0, _ => none
  | _ + 1, [] => none
  | fuel + 1, b :: rest =>
    if b = 0x5d then some ([], rest)
    else do
      let (v, rest) ← readValue fuel rest
      let (vs, rest) ← readTail fuel rest
      return (v :: vs, rest)

end

/-- The value of a whole text. -/
def read (text : Bytes) : Option Value :=
  (readValue text.length text).bind fun (v, rest) => if rest = [] then some v else none

theorem readString_quote (rest : Bytes) : readString (0x22 :: rest) = some ([], rest) := by
  rw [readString.eq_def]
  rfl

theorem readString_short {c : UInt8} (h : c ≠ 0x75) (rest : Bytes) :
    readString (0x5c :: c :: rest) =
      (readString rest).map fun (s, rest) => (unescape c :: s, rest) := by
  rw [readString.eq_def]
  simp [h]

theorem readString_hex (a b : UInt8) {m n : ℕ} (hm : m < 16) (hn : n < 16) (rest : Bytes) :
    readString (0x5c :: 0x75 :: a :: b :: Hex.digit m :: Hex.digit n :: rest) =
      (readString rest).map fun (s, rest) => (UInt8.ofNat (16 * m + n) :: s, rest) := by
  rw [readString.eq_def]
  simp [Hex.value?_digit m hm, Hex.value?_digit n hn, Option.map_eq_bind]

theorem readString_bare {b : UInt8} (hquote : b ≠ 0x22) (hslash : b ≠ 0x5c) (rest : Bytes) :
    readString (b :: rest) = (readString rest).map fun (s, rest) => (b :: s, rest) := by
  rw [readString.eq_def]
  simp [hquote, hslash]

theorem readString_escape (b : UInt8) (rest : Bytes) :
    readString (escape b ++ rest) = (readString rest).map fun (s, rest) => (b :: s, rest) := by
  unfold escape
  split_ifs with h1 h2 h3 h4 h5 h6 h7 h8
  -- the short escapes
  any_goals (subst b; exact readString_short (by decide) rest)
  · have hb := UInt8.lt_iff_toNat_lt.1 h8
    have h32 : (0x20 : UInt8).toNat = 32 := rfl
    have hhex := readString_hex 0x30 0x30 (show b.toNat / 16 < 16 by omega)
      (show b.toNat % 16 < 16 by omega) rest
    rwa [Hex.ofNat_digits] at hhex
  · exact readString_bare h1 h2 rest

theorem readString_printString (s rest : Bytes) :
    readString (s.flatMap escape ++ 0x22 :: rest) = some (s, rest) := by
  induction s with
  | nil => exact readString_quote rest
  | cons b s ih =>
    rw [List.flatMap_cons, List.append_assoc, readString_escape, ih]
    rfl

/-- What follows a value in a text: nothing, or a comma or a closing bracket. -/
def Delimited (rest : Bytes) : Prop := ∀ b ∈ rest.head?, isDigit b = false

theorem delimited_printTail (vs : List Value) (rest : Bytes) :
    Delimited (printTail vs ++ rest) := by
  intro b hb
  cases vs with
  | nil =>
    obtain rfl : 0x5d = b := by simpa [printTail] using hb
    rfl
  | cons v vs =>
    obtain rfl : 0x2c = b := by simpa [printTail] using hb
    rfl

theorem takeWhile_decimal {n : ℕ} {rest : Bytes} (h : Delimited rest) :
    (decimal n ++ rest).takeWhile isDigit = decimal n ∧
      (decimal n ++ rest).dropWhile isDigit = rest := by
  have hdigits : ∀ b ∈ decimal n, isDigit b := fun b hb => isDigit_of_mem_decimal hb
  rw [List.takeWhile_append_of_pos hdigits, List.dropWhile_append_of_pos hdigits]
  cases rest with
  | nil => simp
  | cons b rest => simp [h b rfl]

/-- The text of an array starts neither with a digit nor with a closing bracket. -/
theorem Value.Textual.head_print {v : Value} (h : Textual v) :
    ∃ b t, print v = b :: t ∧ b ≠ 0x5d := by
  cases h with
  | null => exact ⟨_, _, rfl, by decide⟩
  | @number n hn =>
    obtain ⟨b, t, hbt⟩ := List.exists_cons_of_ne_nil (decimal_ne_nil n)
    refine ⟨b, t, hbt, ?_⟩
    rintro rfl
    have hdigit := isDigit_of_mem_decimal (n := n) (b := 0x5d) (by simp [hbt])
    cases hdigit
  | string => exact ⟨_, _, rfl, by decide⟩
  | @array vs =>
    cases vs with
    | nil => exact ⟨_, _, rfl, by decide⟩
    | cons v vs => exact ⟨_, _, rfl, by decide⟩

/-- A value reads back from its text, whatever follows. -/
theorem readValue_print {v : Value} (h : Textual v) : ∀ (fuel : ℕ) (rest : Bytes),
    (print v).length ≤ fuel → Delimited rest →
      readValue fuel (print v ++ rest) = some (v, rest) := by
  induction h with
  | null =>
    intro fuel rest hfuel _
    obtain ⟨fuel, rfl⟩ := Nat.exists_eq_add_of_le' (hfuel.trans' (by decide : 1 ≤ 4))
    rfl
  | @number n hn =>
    intro fuel rest hfuel hrest
    obtain ⟨b, t, hbt⟩ := List.exists_cons_of_ne_nil (decimal_ne_nil n)
    have hdigit : isDigit b := isDigit_of_mem_decimal (n := n) (by simp [hbt])
    obtain ⟨htake, hdrop⟩ := takeWhile_decimal (n := n) hrest
    have hne : b ≠ 0x22 ∧ b ≠ 0x6e ∧ b ≠ 0x5b := by
      refine ⟨?_, ?_, ?_⟩ <;> (rintro rfl; cases hdigit)
    simp only [print, hbt, List.length_cons] at hfuel
    obtain ⟨fuel, rfl⟩ := Nat.exists_eq_add_of_le' (hfuel.trans' (Nat.le_add_left 1 _))
    rw [hbt] at htake hdrop
    simp only [print, hbt, List.cons_append, readValue, hne, if_false, hdigit, if_true]
    rw [← List.cons_append, htake, hdrop, ← hbt, ofDecimal_decimal]
  | string s =>
    intro fuel rest hfuel _
    simp only [print, printString, List.cons_append, List.length_cons] at hfuel
    obtain ⟨fuel, rfl⟩ := Nat.exists_eq_add_of_le' (hfuel.trans' (Nat.le_add_left 1 _))
    simp only [print, printString, List.cons_append, List.append_assoc, readValue, if_true,
      List.nil_append, readString_printString, Option.map_some]
  | @array vs hvs ih =>
    -- the items after the first one, each behind its comma
    have htail : ∀ ws : List Value, (∀ w ∈ ws, w ∈ vs) → ∀ (fuel : ℕ) (rest : Bytes),
        (printTail ws).length ≤ fuel →
          readTail fuel (printTail ws ++ rest) = some (ws, rest) := by
      intro ws
      induction ws with
      | nil =>
        intro _ fuel rest hfuel
        obtain ⟨fuel, rfl⟩ := Nat.exists_eq_add_of_le' (show 1 ≤ fuel from hfuel)
        rfl
      | cons w ws ihs =>
        intro hmem fuel rest hfuel
        simp only [printTail, List.length_cons, List.length_append] at hfuel
        obtain ⟨fuel, rfl⟩ := Nat.exists_eq_add_of_le' (hfuel.trans' (Nat.le_add_left 1 _))
        have hw := ih w (hmem w (by simp)) fuel _ (by omega)
          (delimited_printTail ws rest)
        have hws := ihs (fun x hx => hmem x (by simp [hx])) fuel rest (by omega)
        simp [printTail, readTail, hw, hws]
    intro fuel rest hfuel _
    cases vs with
    | nil =>
      obtain ⟨fuel, rfl⟩ := Nat.exists_eq_add_of_le' (hfuel.trans' (by decide : 1 ≤ 2))
      rfl
    | cons v vs =>
      simp only [print, List.length_cons, List.length_append] at hfuel
      obtain ⟨fuel, rfl⟩ := Nat.exists_eq_add_of_le' (hfuel.trans' (Nat.le_add_left 1 _))
      have hv := ih v (by simp) fuel _ (by omega) (delimited_printTail vs rest)
      have hvs' := htail vs (fun x hx => by simp [hx]) fuel rest (by omega)
      obtain ⟨b, t, hbt, hb⟩ := (hvs v (by simp)).head_print
      have hhead : (print v).head? ≠ some 0x5d := by simpa [hbt] using hb
      have hne : print v ≠ [] := by simp [hbt]
      simp [print, readValue, hv, hvs', hhead, hne]

/-- A value reads back from its text. -/
theorem read_print {v : Value} (h : Textual v) : read (print v) = some v := by
  have hread := readValue_print h _ [] le_rfl (by intro b hb; cases hb)
  rw [List.append_nil] at hread
  simp [read, hread]

end VizorWallet.Json
