import VizorWallet.Library.Bytes
import Mathlib.Data.Nat.Digits.Lemmas

/-!
# Head and tail encoding

The arguments of a contract call: words in place, and items of variable length behind the offset
of their bytes.

## Main definitions

* `word`, `bytes` — a number and a byte string.
* `Part` — an encoded item, in place or behind an offset.
* `tuple`, `array` — the encodings of a list of parts.
* `Delimited` — two encodings that no following bytes make alike.
* `Codes` — a way to encode a type as parts.

## Main results

* `word_inj`, `bytes_append_inj` — a number and a byte string can be read back.
* `tuple_append_inj`, `array_append_inj` — so can parts that can be compared one by one.
* `codes_bytes`, `Codes.array`, `Codes.tuple` — the encodings of a type, from those of its fields.
-/

namespace VizorWallet.Abi

/-- A number modulo `2 ^ 256`, in 32 bytes. -/
def word (n : ℕ) : Bytes := (Nat.digitsAppend 256 32 (n % 2 ^ 256)).reverse.map UInt8.ofNat

@[simp] theorem length_word (n : ℕ) : (word n).length = 32 := by
  have hlt : n % 2 ^ 256 < 256 ^ 32 := (Nat.mod_lt n (by norm_num)).trans_eq (by norm_num)
  rw [word, List.length_map, List.length_reverse,
    Nat.length_digitsAppend (by norm_num) 32 hlt]

theorem ofDigits_word (n : ℕ) :
    Nat.ofDigits 256 ((word n).reverse.map UInt8.toNat) = n % 2 ^ 256 := by
  have hmap : (Nat.digitsAppend 256 32 (n % 2 ^ 256)).map (UInt8.toNat ∘ UInt8.ofNat) =
      Nat.digitsAppend 256 32 (n % 2 ^ 256) := by
    refine (List.map_congr_left fun d hd => ?_).trans (List.map_id _)
    exact Nat.mod_eq_of_lt (Nat.lt_of_mem_digitsAppend (by norm_num) 32 d hd)
  rw [word, ← List.map_reverse, List.reverse_reverse, List.map_map, hmap, Nat.digitsAppend,
    Nat.ofDigits_append_replicate_zero, Nat.ofDigits_digits]

theorem word_inj {m n : ℕ} (hm : m < 2 ^ 256) (hn : n < 2 ^ 256) : word m = word n ↔ m = n := by
  refine ⟨fun h => ?_, congrArg word⟩
  have hdigits := ofDigits_word m
  rw [h, ofDigits_word, Nat.mod_eq_of_lt hm, Nat.mod_eq_of_lt hn] at hdigits
  exact hdigits.symm

/-- No bytes behind two different encodings make them alike. -/
def Delimited (x y : Bytes) : Prop := ∀ {r s : Bytes}, x ++ r = y ++ s → x = y

theorem Delimited.append_inj {x y r s : Bytes} (h : Delimited x y) (heq : x ++ r = y ++ s) :
    x = y ∧ r = s := by
  obtain rfl := h heq
  exact ⟨rfl, List.append_cancel_left heq⟩

/-! ## Byte strings -/

/-- A byte string behind its length, filled with zeros to whole words. -/
def bytes (b : Bytes) : Bytes :=
  word b.length ++ (b ++ List.replicate ((32 - b.length % 32) % 32) 0)

section Bytes

variable {b c r s : Bytes}

theorem bytes_append_inj (hb : b.length < 2 ^ 256) (hc : c.length < 2 ^ 256)
    (h : bytes b ++ r = bytes c ++ s) : b = c ∧ r = s := by
  simp only [bytes, List.append_assoc] at h
  obtain ⟨hword, hrest⟩ := List.append_inj h (by simp)
  have hlength := (word_inj hb hc).1 hword
  obtain ⟨rfl, htail⟩ := List.append_inj hrest hlength
  exact ⟨rfl, List.append_cancel_left htail⟩

theorem delimited_bytes (hb : b.length < 2 ^ 256) (hc : c.length < 2 ^ 256) :
    Delimited (bytes b) (bytes c) :=
  fun h => congrArg bytes (bytes_append_inj hb hc h).1

theorem bytes_inj (hb : b.length < 2 ^ 256) (hc : c.length < 2 ^ 256) :
    bytes b = bytes c ↔ b = c :=
  ⟨fun h => (bytes_append_inj (r := []) (s := []) hb hc (by rw [h])).1, congrArg bytes⟩

end Bytes

/-! ## Parts -/

/-- An encoded item. -/
inductive Part where
  | inPlace (data : Bytes)
  | behind (data : Bytes)
  deriving DecidableEq

/-- The length of the heads. -/
def headSize : List Part → ℕ
  | [] => 0
  | .inPlace data :: parts => data.length + headSize parts
  | .behind _ :: parts => 32 + headSize parts

/-- The items in place and the offsets of the others, the first of which is given. -/
def heads (offset : ℕ) : List Part → Bytes
  | [] => []
  | .inPlace data :: parts => data ++ heads offset parts
  | .behind data :: parts => word offset ++ heads (offset + data.length) parts

/-- The items behind the heads. -/
def tails : List Part → Bytes
  | [] => []
  | .inPlace _ :: parts => tails parts
  | .behind data :: parts => data ++ tails parts

def tuple (parts : List Part) : Bytes := heads (headSize parts) parts ++ tails parts

/-- Items of one type behind their number. -/
def array (parts : List Part) : Bytes := word parts.length ++ tuple parts

/-- Two parts at one place of two encodings. -/
inductive Comparable : Part → Part → Prop
  | inPlace {x y : Bytes} (h : x.length = y.length) : Comparable (.inPlace x) (.inPlace y)
  | behind {x y : Bytes} (h : Delimited x y) : Comparable (.behind x) (.behind y)

variable {ps qs : List Part} {r s : Bytes}

@[simp] theorem length_heads (offset : ℕ) (ps : List Part) :
    (heads offset ps).length = headSize ps := by
  fun_induction heads offset ps <;> simp_all [headSize]

theorem headSize_eq (h : List.Forall₂ Comparable ps qs) : headSize ps = headSize qs := by
  induction h with
  | nil => rfl
  | cons hpart _ ih => cases hpart <;> simp_all [headSize]

/-- Equal heads have equal items in place, and the tails are read one by one. -/
theorem heads_tails_inj (h : List.Forall₂ Comparable ps qs) {m n : ℕ}
    (hheads : heads m ps = heads n qs) (htails : tails ps ++ r = tails qs ++ s) :
    ps = qs ∧ r = s := by
  induction h generalizing m n with
  | nil => exact ⟨rfl, htails⟩
  | cons hpart _ ih =>
    cases hpart with
    | inPlace hlength =>
      obtain ⟨rfl, hrest⟩ := List.append_inj hheads hlength
      obtain ⟨rfl, rfl⟩ := ih hrest htails
      exact ⟨rfl, rfl⟩
    | behind hdelimited =>
      simp only [tails, List.append_assoc] at htails
      obtain ⟨rfl, hrest⟩ := hdelimited.append_inj htails
      obtain ⟨rfl, rfl⟩ := ih (List.append_inj_right hheads (by simp)) hrest
      exact ⟨rfl, rfl⟩

theorem tuple_append_inj (h : List.Forall₂ Comparable ps qs)
    (heq : tuple ps ++ r = tuple qs ++ s) : ps = qs ∧ r = s := by
  simp only [tuple, List.append_assoc] at heq
  obtain ⟨hheads, htails⟩ := List.append_inj heq (by simp [headSize_eq h])
  exact heads_tails_inj h hheads htails

theorem delimited_tuple (h : List.Forall₂ Comparable ps qs) : Delimited (tuple ps) (tuple qs) :=
  fun heq => congrArg tuple (tuple_append_inj h heq).1

theorem tuple_inj (h : List.Forall₂ Comparable ps qs) : tuple ps = tuple qs ↔ ps = qs :=
  ⟨fun heq => (tuple_append_inj (r := []) (s := []) h (by rw [heq])).1, congrArg tuple⟩

/-! ## Arrays -/

theorem array_append_inj (hps : ps.length < 2 ^ 256) (hqs : qs.length < 2 ^ 256)
    (h : ∀ p ∈ ps, ∀ q ∈ qs, Comparable p q) (heq : array ps ++ r = array qs ++ s) :
    ps = qs ∧ r = s := by
  simp only [array, List.append_assoc] at heq
  obtain ⟨hword, hrest⟩ := List.append_inj heq (by simp)
  have hlength := (word_inj hps hqs).1 hword
  refine tuple_append_inj (List.forall₂_iff_zip.2 ⟨hlength, fun hmem => ?_⟩) hrest
  exact h _ (List.of_mem_zip hmem).1 _ (List.of_mem_zip hmem).2

/-! ## Types -/

/-- The values of a type that are not too long have comparable parts, and different ones. -/
structure Codes {α : Type*} (part : α → Part) (short : α → Prop) : Prop where
  comparable : ∀ {a b}, short a → short b → Comparable (part a) (part b)
  inj : ∀ {a b}, short a → short b → part a = part b → a = b

section Codes

variable {α : Type*} {part : α → Part} {short : α → Prop}

theorem Codes.eq_iff (h : Codes part short) {a b : α} (ha : short a) (hb : short b) :
    part a = part b ↔ a = b :=
  ⟨h.inj ha hb, congrArg part⟩

theorem Codes.of_imp (h : Codes part short) {shorter : α → Prop} (himp : ∀ a, shorter a → short a) :
    Codes part shorter where
  comparable ha hb := h.comparable (himp _ ha) (himp _ hb)
  inj ha hb heq := h.inj (himp _ ha) (himp _ hb) heq

theorem codes_inPlace {encode : α → Bytes} {n : ℕ} (hlength : ∀ a, (encode a).length = n)
    (hinj : ∀ {a b}, short a → short b → encode a = encode b → a = b) :
    Codes (fun a => .inPlace (encode a)) short where
  comparable _ _ := .inPlace ((hlength _).trans (hlength _).symm)
  inj ha hb h := hinj ha hb (Part.inPlace.inj h)

theorem codes_bytes : Codes (fun b => .behind (bytes b)) (fun b : Bytes => b.length < 2 ^ 256) where
  comparable ha hb := .behind (delimited_bytes ha hb)
  inj ha hb h := (bytes_inj ha hb).1 (Part.behind.inj h)

theorem Codes.map_inj (h : Codes part short) {as bs : List α} (has : ∀ a ∈ as, short a)
    (hbs : ∀ b ∈ bs, short b) (heq : as.map part = bs.map part) : as = bs := by
  induction as generalizing bs with
  | nil => simpa [eq_comm] using heq
  | cons a as ih =>
    cases bs with
    | nil => simp at heq
    | cons b bs =>
      simp only [List.mem_cons, forall_eq_or_imp] at has hbs
      simp only [List.map_cons, List.cons.injEq] at heq
      rw [h.inj has.1 hbs.1 heq.1, ih has.2 hbs.2 heq.2]

theorem Codes.array (h : Codes part short) :
    Codes (fun items => .behind (Abi.array (items.map part)))
      (fun items : List α => items.length < 2 ^ 256 ∧ ∀ a ∈ items, short a) := by
  have hcomparable : ∀ {as bs : List α}, (∀ a ∈ as, short a) → (∀ b ∈ bs, short b) →
      ∀ p ∈ as.map part, ∀ q ∈ bs.map part, Comparable p q := by
    intro as bs has hbs p hp q hq
    obtain ⟨a, ha, rfl⟩ := List.mem_map.1 hp
    obtain ⟨b, hb, rfl⟩ := List.mem_map.1 hq
    exact h.comparable (has a ha) (hbs b hb)
  have hread : ∀ {as bs : List α} {r s : Bytes}, as.length < 2 ^ 256 ∧ (∀ a ∈ as, short a) →
      bs.length < 2 ^ 256 ∧ (∀ b ∈ bs, short b) →
      Abi.array (as.map part) ++ r = Abi.array (bs.map part) ++ s → as.map part = bs.map part := by
    intro as bs r s has hbs heq
    exact (array_append_inj (by simpa using has.1) (by simpa using hbs.1)
      (hcomparable has.2 hbs.2) heq).1
  refine ⟨fun has hbs => .behind fun heq => congrArg Abi.array (hread has hbs heq), ?_⟩
  intro as bs has hbs heq
  exact h.map_inj has.2 hbs.2 (hread (r := []) (s := []) has hbs (by rw [Part.behind.inj heq]))

theorem Codes.tuple {parts : α → List Part}
    (hcomparable : ∀ {a b}, short a → short b → List.Forall₂ Comparable (parts a) (parts b))
    (hinj : ∀ {a b}, short a → short b → parts a = parts b → a = b) :
    Codes (fun a => .behind (Abi.tuple (parts a))) short where
  comparable ha hb := .behind (delimited_tuple (hcomparable ha hb))
  inj ha hb heq := hinj ha hb ((tuple_inj (hcomparable ha hb)).1 (Part.behind.inj heq))

end Codes

end VizorWallet.Abi
