import Mathlib.Data.List.Basic
import Mathlib.Data.List.Perm.Basic
import Mathlib.Data.Nat.Find

/-!
# Shuffles and rejection sampling

What a random number generator does to a list, and what it gives to a loop that draws until a
sample is small enough.

## Main definitions

* `Shuffle` — a permutation of every list.
* `Sampler` — an endless sequence of samples of which some are always accepted.
* `Sampler.draw` — the next accepted sample.
-/

namespace VizorWallet

structure Shuffle (α : Type*) where
  shuffle : List α → List α
  perm : ∀ l, (shuffle l).Perm l

namespace Shuffle

variable {α : Type*} (S : Shuffle α)

@[simp] theorem mem_shuffle {l : List α} {a : α} : a ∈ S.shuffle l ↔ a ∈ l := (S.perm l).mem_iff

@[simp] theorem length_shuffle (l : List α) : (S.shuffle l).length = l.length :=
  (S.perm l).length_eq

/-- The shuffle that changes nothing. -/
def none : Shuffle α := ⟨id, .refl⟩

end Shuffle

/-- Samples of which there is always another one that is accepted. -/
structure Sampler (bound : ℕ) where
  sample : ℕ → ℕ
  accepts : ∀ position, ∃ next, position ≤ next ∧ sample next ≤ bound

namespace Sampler

variable {bound : ℕ} (S : Sampler bound)

/-- The next accepted sample, and the position after it. -/
def draw (position : ℕ) : ℕ × ℕ :=
  let next := Nat.find (S.accepts position)
  (S.sample next, next + 1)

theorem draw_le (position : ℕ) : (S.draw position).1 ≤ bound :=
  (Nat.find_spec (S.accepts position)).2

/-- Samples that are all accepted. -/
def ofAccepted (sample : ℕ → ℕ) (h : ∀ position, sample position ≤ bound) : Sampler bound :=
  ⟨sample, fun position => ⟨position, le_rfl, h position⟩⟩

@[simp] theorem draw_ofAccepted (sample : ℕ → ℕ) (h : ∀ position, sample position ≤ bound)
    (position : ℕ) : (ofAccepted sample h).draw position = (sample position, position + 1) := by
  have hfind : Nat.find ((ofAccepted sample h).accepts position) = position :=
    (Nat.find_eq_iff _).2 ⟨⟨le_rfl, h position⟩, fun _ hlt hnext => hlt.not_ge hnext.1⟩
  rw [draw, hfind]
  rfl

end Sampler

end VizorWallet
