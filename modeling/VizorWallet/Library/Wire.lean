import Mathlib.Data.Int.Basic
import VizorWallet.Library.Bytes
import VizorWallet.Library.Outcome

/-!
# Wire formats

Words that a reader can take off the front of a stream: numbers of a fixed width, flagged options,
lists of a known length, and fields cut into chunks.

## Main definitions

* `Unambiguous` — a value and the end of its word can be read off a stream.
* `leBytes`, `beBytes`, `leValue` — numbers of a fixed width.
* `chunks`, `chunksExact` — a word cut into pieces.

## Main results

* `Unambiguous.list` — a list of known length of unambiguous words.
* `flatten_chunks` — the pieces make up the word.
-/

namespace VizorWallet

variable {α β σ : Type*}

/-- The word written for a value and whatever follows it determine the value and the rest. -/
def Unambiguous (writes : α → List σ → Prop) : Prop :=
  ∀ ⦃a b s t x y⦄, writes a s → writes b t → s ++ x = t ++ y → a = b ∧ x = y

namespace Unambiguous

/-- Words of a fixed length. -/
theorem of_length {word : α → List σ} (n : ℕ) (hlength : ∀ a, (word a).length = n)
    (hinj : Function.Injective word) : Unambiguous fun a s => word a = s := by
  rintro a b _ _ x y rfl rfl h
  have hwords := List.append_inj h ((hlength a).trans (hlength b).symm)
  exact ⟨hinj hwords.1, hwords.2⟩

/-- The words of two lists of the same length, one after another. -/
theorem list {writes : α → List σ → Prop} (h : Unambiguous writes) {l l' : List α}
    {s t : List (List σ)} {x y : List σ} (hs : List.Forall₂ writes l s)
    (ht : List.Forall₂ writes l' t) (hlength : l.length = l'.length)
    (hwords : s.flatten ++ x = t.flatten ++ y) : l = l' ∧ x = y := by
  induction hs generalizing l' t with
  | nil =>
    obtain rfl := List.length_eq_zero_iff.1 hlength.symm
    obtain rfl := List.forall₂_nil_left_iff.1 ht
    exact ⟨rfl, hwords⟩
  | cons ha _ ih =>
    cases ht with
    | nil => simp at hlength
    | cons hb ht =>
      rw [List.flatten_cons, List.flatten_cons, List.append_assoc, List.append_assoc] at hwords
      obtain ⟨rfl, hrest⟩ := h ha hb hwords
      obtain ⟨rfl, hxy⟩ := ih ht (by simpa using hlength) hrest
      exact ⟨rfl, hxy⟩

end Unambiguous

/-! ## Numbers -/

/-- The low `width` bytes of a number, the lowest first. -/
def leBytes : ℕ → ℕ → Bytes
  | 0, _ => []
  | width + 1, n => UInt8.ofNat n :: leBytes width (n / 256)

/-- The low `width` bytes of a number, the highest first. -/
def beBytes (width n : ℕ) : Bytes := (leBytes width n).reverse

@[simp] theorem length_leBytes (width n : ℕ) : (leBytes width n).length = width := by
  induction width generalizing n with
  | zero => rfl
  | succ width ih => simp [leBytes, ih]

@[simp] theorem length_beBytes (width n : ℕ) : (beBytes width n).length = width := by
  simp [beBytes]

theorem leBytes_inj {width m n : ℕ} (hm : m < 256 ^ width) (hn : n < 256 ^ width)
    (h : leBytes width m = leBytes width n) : m = n := by
  induction width generalizing m n with
  | zero => omega
  | succ width ih =>
    rw [leBytes, leBytes, List.cons.injEq] at h
    have hlow : m % 256 = n % 256 := by simpa using congrArg UInt8.toNat h.1
    have hhigh : m / 256 = n / 256 :=
      ih (Nat.div_lt_of_lt_mul (by omega)) (Nat.div_lt_of_lt_mul (by omega)) h.2
    omega

theorem leBytes_append_inj {width m n : ℕ} {x y : Bytes} (hm : m < 256 ^ width)
    (hn : n < 256 ^ width) : leBytes width m ++ x = leBytes width n ++ y ↔ m = n ∧ x = y := by
  constructor
  · intro h
    obtain ⟨hwords, hrest⟩ := List.append_inj h (by simp)
    exact ⟨leBytes_inj hm hn hwords, hrest⟩
  · rintro ⟨rfl, rfl⟩
    rfl

/-- The number that some bytes spell, the lowest first. -/
def leValue : Bytes → ℕ
  | [] => 0
  | byte :: bytes => byte.toNat + 256 * leValue bytes

theorem leValue_lt (bytes : Bytes) : leValue bytes < 256 ^ bytes.length := by
  induction bytes with
  | nil => simp [leValue]
  | cons byte bytes ih =>
    have := byte.toNat_lt
    rw [leValue, List.length_cons, Nat.pow_succ]
    omega

theorem leValue_leBytes {width n : ℕ} (h : n < 256 ^ width) : leValue (leBytes width n) = n := by
  induction width generalizing n with
  | zero => simp at h; simp [leBytes, leValue, h]
  | succ width ih =>
    have hhigh : n / 256 < 256 ^ width := Nat.div_lt_of_lt_mul (by rw [Nat.pow_succ] at h; omega)
    rw [leBytes, leValue, ih hhigh, UInt8.toNat_ofNat']
    omega

theorem leBytes_leValue (bytes : Bytes) : leBytes bytes.length (leValue bytes) = bytes := by
  induction bytes with
  | nil => rfl
  | cons byte bytes ih =>
    have hbyte := byte.toNat_lt
    have hhigh : (byte.toNat + 256 * leValue bytes) / 256 = leValue bytes := by omega
    have hlow : UInt8.ofNat (byte.toNat + 256 * leValue bytes) = byte := by
      rw [← UInt8.toNat_inj, UInt8.toNat_ofNat']
      omega
    rw [List.length_cons, leValue, leBytes, hhigh, hlow, ih]

/-- Some bytes spell a number exactly when they are written for it. -/
theorem leBytes_eq_iff {width n : ℕ} {bytes : Bytes} (hn : n < 256 ^ width) :
    leBytes width n = bytes ↔ bytes.length = width ∧ leValue bytes = n := by
  constructor
  · rintro rfl
    exact ⟨length_leBytes .., leValue_leBytes hn⟩
  · rintro ⟨rfl, rfl⟩
    exact leBytes_leValue bytes

/-- A `u32`, the lowest byte first. -/
def u32le (n : UInt32) : Bytes := leBytes 4 n.toNat

/-- A `u32`, the highest byte first. -/
def u32be (n : UInt32) : Bytes := beBytes 4 n.toNat

/-- A `u64`, the lowest byte first. -/
def u64le (n : UInt64) : Bytes := leBytes 8 n.toNat

@[simp] theorem length_u32le (n : UInt32) : (u32le n).length = 4 := length_leBytes ..
@[simp] theorem length_u32be (n : UInt32) : (u32be n).length = 4 := length_beBytes ..
@[simp] theorem length_u64le (n : UInt64) : (u64le n).length = 8 := length_leBytes ..

@[simp] theorem u32le_append_inj {m n : UInt32} {x y : Bytes} :
    u32le m ++ x = u32le n ++ y ↔ m = n ∧ x = y := by
  rw [u32le, u32le, leBytes_append_inj (by simpa using m.toNat_lt) (by simpa using n.toNat_lt),
    UInt32.toNat_inj]

@[simp] theorem u64le_append_inj {m n : UInt64} {x y : Bytes} :
    u64le m ++ x = u64le n ++ y ↔ m = n ∧ x = y := by
  rw [u64le, u64le, leBytes_append_inj (by simpa using m.toNat_lt) (by simpa using n.toNat_lt),
    UInt64.toNat_inj]

theorem unambiguous_u32be : Unambiguous fun (n : UInt32) s => u32be n = s := by
  apply Unambiguous.of_length 4 length_u32be
  intro m n h
  have hbytes : leBytes 4 m.toNat = leBytes 4 n.toNat := List.reverse_injective h
  exact UInt32.toNat_inj.1 (leBytes_inj (by simpa using m.toNat_lt) (by simpa using n.toNat_lt)
    hbytes)

@[simp] theorem length_fixed {n : ℕ} (a : Fixed n) : a.1.length = n := a.2

@[simp] theorem fixed_append_inj {n : ℕ} {a b : Fixed n} {x y : Bytes} :
    a.1 ++ x = b.1 ++ y ↔ a = b ∧ x = y := by
  constructor
  · intro h
    obtain ⟨hwords, hrest⟩ := List.append_inj h (a.2.trans b.2.symm)
    exact ⟨Subtype.ext hwords, hrest⟩
  · rintro ⟨rfl, rfl⟩
    rfl

/-! ## Options -/

/-- A flag byte, and the word of the value when there is one. -/
def flagged (word : α → Bytes) : Option α → Bytes
  | some a => 1 :: word a
  | none => [0]

theorem flagged_append_inj {word : α → Bytes} {a b : Option α} {x y : Bytes}
    (hword : ∀ {a b x y}, word a ++ x = word b ++ y ↔ a = b ∧ x = y) :
    flagged word a ++ x = flagged word b ++ y ↔ a = b ∧ x = y := by
  cases a <;> cases b <;> simp [flagged, hword]

/-! ## Chunks -/

/-- A word cut into pieces of `size` elements, the last of which may be shorter. -/
def chunks (size : ℕ) (word : List σ) : List (List σ) :=
  (List.range ((word.length + size - 1) / size)).map fun i => (word.drop (i * size)).take size

theorem flatten_map_range_take (size count : ℕ) (word : List σ) :
    ((List.range count).map fun i => (word.drop (i * size)).take size).flatten =
      word.take (count * size) := by
  induction count with
  | zero => simp
  | succ count ih =>
    rw [List.range_succ, List.map_append, List.flatten_append, ih, Nat.succ_mul, List.take_add]
    simp

theorem flatten_chunks {size : ℕ} (hsize : 0 < size) (word : List σ) :
    (chunks size word).flatten = word := by
  rw [chunks, flatten_map_range_take]
  apply List.take_of_length_le
  have hdiv := Nat.div_add_mod (word.length + size - 1) size
  have hmod := Nat.mod_lt (word.length + size - 1) hsize
  rw [mul_comm] at hdiv
  omega

/-- The pieces of exactly `size` elements of a word; a shorter rest is left out. -/
def chunksExact (size : ℕ) (word : List σ) : List (List σ) :=
  (List.range (word.length / size)).map fun i => (word.drop (i * size)).take size

theorem length_of_mem_chunksExact {size : ℕ} {word piece : List σ}
    (h : piece ∈ chunksExact size word) : piece.length = size := by
  obtain ⟨i, hi, rfl⟩ := List.mem_map.1 h
  have hstart : (i + 1) * size ≤ word.length := by
    rw [List.mem_range] at hi
    exact (Nat.mul_le_mul_right size hi).trans (Nat.div_mul_le_self ..)
  rw [Nat.succ_mul] at hstart
  rw [List.length_take, List.length_drop]
  omega

theorem flatten_chunksExact {size : ℕ} {word : List σ} (h : size ∣ word.length) :
    (chunksExact size word).flatten = word := by
  rw [chunksExact, flatten_map_range_take, Nat.div_mul_cancel h, List.take_length]

/-- Pieces of one length are found again in their word. -/
theorem chunksExact_flatten {size : ℕ} (hsize : 0 < size) {pieces : List (List σ)}
    (h : ∀ piece ∈ pieces, piece.length = size) : chunksExact size pieces.flatten = pieces := by
  induction pieces with
  | nil => simp [chunksExact]
  | cons piece pieces ih =>
    obtain ⟨hpiece, hpieces⟩ := List.forall_mem_cons.1 h
    have hcount : (piece ++ pieces.flatten).length / size = pieces.flatten.length / size + 1 := by
      rw [List.length_append, hpiece, Nat.add_comm, Nat.add_div_right _ hsize]
    rw [List.flatten_cons, chunksExact, hcount, List.range_succ_eq_map, List.map_cons, List.map_map]
    congr 1
    · simp [← hpiece]
    · refine Eq.trans (List.map_congr_left fun i _ => ?_) (ih hpieces)
      rw [Function.comp_apply, Nat.succ_mul, Nat.add_comm, ← List.drop_drop,
        List.drop_left' hpiece]

theorem chunk_nonempty {size : ℕ} {word piece : List σ} (h : piece ∈ chunks size word) :
    piece ≠ [] ∧ piece.length ≤ size := by
  obtain ⟨i, hi, rfl⟩ := List.mem_map.1 h
  rw [List.mem_range] at hi
  have hsize : 0 < size := by
    by_contra hzero
    simp [Nat.eq_zero_of_not_pos hzero] at hi
  refine ⟨?_, by simp⟩
  have hstart : (i + 1) * size ≤ word.length + size - 1 := by
    exact (Nat.le_div_iff_mul_le hsize).1 hi
  rw [Nat.succ_mul] at hstart
  rw [ne_eq, List.take_eq_nil_iff, List.drop_eq_nil_iff]
  omega

end VizorWallet
