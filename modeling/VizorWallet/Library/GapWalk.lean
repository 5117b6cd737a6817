import Mathlib.Algebra.Order.Group.Nat

/-!
# Walks up to a gap

A walk along the indices counts how many were unused in a row, and stops when they are as many as
the gap limit.

## Main definitions

* `GapWalk` — what a walk up to an index has seen.

## Main results

* `GapWalk.zero`, `GapWalk.advance` — a walk starts, and advances by one index.
* `GapWalk.no_earlier_gap` — no earlier window of the gap's length is unused throughout.
-/

namespace VizorWallet

/-- A walk of `gap` over the indices below `next`, the last `unused` of which are not used. -/
structure GapWalk (gap : ℕ) (used : ℕ → Prop) (next unused : ℕ) : Prop where
  unused_le_gap : unused ≤ gap
  unused_le_next : unused ≤ next
  tail_unused : ∀ index, next ≤ index + unused → index < next → ¬ used index
  before_tail : unused < next → used (next - unused - 1)
  no_earlier_gap : ∀ start, start + gap < next → ∃ index, start ≤ index ∧ index < start + gap ∧
    used index

namespace GapWalk

variable {gap next unused : ℕ} {used used' : ℕ → Prop}

theorem zero : GapWalk gap used 0 0 where
  unused_le_gap := Nat.zero_le gap
  unused_le_next := le_rfl
  tail_unused _ _ h := absurd h (Nat.not_lt_zero _)
  before_tail h := absurd h (Nat.not_lt_zero _)
  no_earlier_gap _ h := absurd h (Nat.not_lt_zero _)

/-- A walk only depends on the indices it has passed. -/
theorem congr (h : GapWalk gap used next unused) (heq : ∀ index < next, used' index ↔ used index) :
    GapWalk gap used' next unused where
  unused_le_gap := h.unused_le_gap
  unused_le_next := h.unused_le_next
  tail_unused index htail hlt := fun hused => h.tail_unused index htail hlt ((heq _ hlt).1 hused)
  before_tail hlt := by
    have hindex : next - unused - 1 < next := by omega
    exact (heq _ hindex).2 (h.before_tail hlt)
  no_earlier_gap start hstart := by
    obtain ⟨index, hle, hlt, hused⟩ := h.no_earlier_gap start hstart
    exact ⟨index, hle, hlt, (heq index (hlt.trans hstart)).2 hused⟩

/-- The window that ends where an open walk stands has a used index. -/
theorem window_used (h : GapWalk gap used next unused) (hopen : unused < gap) {start : ℕ}
    (hstart : start + gap < next + 1) :
    ∃ index, start ≤ index ∧ index < start + gap ∧ used index := by
  obtain hlt | heq := Nat.lt_succ_iff_lt_or_eq.1 hstart
  · exact h.no_earlier_gap start hlt
  · have hbefore := h.before_tail (by omega)
    exact ⟨next - unused - 1, by omega, by omega, hbefore⟩

theorem advance_used (h : GapWalk gap used next unused) (hopen : unused < gap)
    (hused : used next) : GapWalk gap used (next + 1) 0 where
  unused_le_gap := Nat.zero_le gap
  unused_le_next := Nat.zero_le _
  tail_unused index htail hlt := by omega
  before_tail _ := hused
  no_earlier_gap _ hstart := h.window_used hopen hstart

theorem advance_unused (h : GapWalk gap used next unused) (hopen : unused < gap)
    (hused : ¬ used next) : GapWalk gap used (next + 1) (unused + 1) where
  unused_le_gap := hopen
  unused_le_next := Nat.succ_le_succ h.unused_le_next
  tail_unused index htail hlt := by
    obtain hlt | rfl := Nat.lt_succ_iff_lt_or_eq.1 hlt
    · exact h.tail_unused index (by omega) hlt
    · exact hused
  before_tail hlt := by
    have hindex : next + 1 - (unused + 1) - 1 = next - unused - 1 := by omega
    exact hindex ▸ h.before_tail (by omega)
  no_earlier_gap _ hstart := h.window_used hopen hstart

end GapWalk

end VizorWallet
