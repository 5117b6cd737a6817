import Mathlib.Order.Basic
import Mathlib.Algebra.Order.Group.Nat

/-!
# Chains that are reorganised

A chain over time: `block time height` is the block the chain has at a height, and
`record time height` is what it has recorded up to there. A reorganisation replaces every block from
a fork on by blocks that were never seen before.

## Main results

* `Reorganizes.between` — a block that is there at two times was there, with its record, at every
  time between them.
-/

namespace VizorWallet

variable {β γ : Type*} (block : ℕ → ℕ → β) (record : ℕ → ℕ → γ)

/-- After `time` the chain continues below the fork, and has new blocks from the fork on. -/
def ForksAt (time fork : ℕ) : Prop :=
  (∀ height < fork, block (time + 1) height = block time height ∧
    record (time + 1) height = record time height) ∧
  ∀ height ≥ fork, ∀ past ≤ time, block (time + 1) height ≠ block past height

/-- Every change of the chain is a fork. -/
def Reorganizes : Prop :=
  ∀ time, (block (time + 1) = block time ∧ record (time + 1) = record time) ∨
    ∃ fork, ForksAt block record time fork

variable {block record} {first time last height : ℕ}

theorem Reorganizes.between (h : Reorganizes block record) (hfirst : first ≤ time)
    (hlast : time ≤ last) (hsame : block first height = block last height) :
    block time height = block last height ∧ record time height = record last height := by
  induction last, hlast using Nat.le_induction with
  | base => exact ⟨rfl, rfl⟩
  | succ last hle ih =>
    obtain ⟨hblock, hrecord⟩ | ⟨fork, hbelow, habove⟩ := h last
    · rw [hblock] at hsame ⊢
      rw [hrecord]
      exact ih hsame
    · obtain hlt | hge := Nat.lt_or_ge height fork
      · obtain ⟨hblock, hrecord⟩ := hbelow height hlt
        rw [hblock] at hsame ⊢
        rw [hrecord]
        exact ih hsame
      · exact absurd hsame.symm (habove height hge first (hfirst.trans hle))

end VizorWallet
