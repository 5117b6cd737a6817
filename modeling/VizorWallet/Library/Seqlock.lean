import Mathlib.Data.Nat.Basic
import Mathlib.Logic.Relation
import Mathlib.Tactic.SplitIfs

/-!
# Sequence locks

A writer makes a counter odd before it changes a value, and even again when it is done. A reader
that finds the same even count before and after it has read the value knows that no write fell in
between. The counter wraps.

## Main definitions

* `Seqlock` — a value, and how often a writer has entered or left.
* `Seqlock.Step` — what writers do.
* `Seqlock.Snapshot` — a value that was read while the counter was at a count.
* `Seqlock.ReadSince` — a value that was read after the counter was at a count.

## Main results

* `Seqlock.Snapshot.steps`, `Seqlock.ReadSince.steps` — what writers do keeps both.
* `Seqlock.ReadSince.snapshot` — a reader that finds the same even count again has a snapshot.
* `Seqlock.Snapshot.current` — a snapshot whose count the counter still has is up to date.
-/

namespace VizorWallet

/-- A value, and how often a writer has entered or left. -/
structure Seqlock (α : Type*) where
  ticks : ℕ
  value : α

namespace Seqlock

variable {α : Type*}

/-- What writers do: no value changes while none has entered. -/
inductive Step : Seqlock α → Seqlock α → Prop
  | tick (lock : Seqlock α) : Step lock { lock with ticks := lock.ticks + 1 }
  | write (lock : Seqlock α) (value : α) (h : lock.ticks % 2 = 1) :
    Step lock { lock with value := value }

/-- The counter as readers see it. -/
def epoch (modulus : ℕ) (lock : Seqlock α) : ℕ := lock.ticks % modulus

/-- A part of the value that was read while the counter was at an even count. -/
def Snapshot {β : Type*} (part : α → β) (modulus epoch : ℕ) (read : β) (lock : Seqlock α) : Prop :=
  ∃ ticks, ticks ≤ lock.ticks ∧ ticks % 2 = 0 ∧ ticks % modulus = epoch ∧
    (ticks = lock.ticks → part lock.value = read)

variable {β : Type*} {part : α → β} {modulus epoch : ℕ} {read : β} {lock lock' : Seqlock α}

theorem snapshot_of_even (heven : lock.ticks % 2 = 0) :
    Snapshot part modulus (lock.epoch modulus) (part lock.value) lock :=
  ⟨lock.ticks, le_rfl, heven, rfl, fun _ => rfl⟩

/-- What writers do keeps snapshots. -/
theorem Snapshot.step (h : Snapshot part modulus epoch read lock) (hstep : Step lock lock') :
    Snapshot part modulus epoch read lock' := by
  obtain ⟨ticks, hle, heven, hepoch, hsame⟩ := h
  cases hstep with
  | tick => exact ⟨ticks, Nat.le_succ_of_le hle, heven, hepoch, fun heq => by simp at heq; omega⟩
  | write value hodd =>
    refine ⟨ticks, hle, heven, hepoch, fun heq => ?_⟩
    simp only at heq
    omega

/-- A counter that has not wrapped shows the same count only while it is the same. -/
theorem ticks_eq_of_epoch_eq {ticks : ℕ} (hle : ticks ≤ lock.ticks) (hlt : lock.ticks < modulus)
    (h : ticks % modulus = lock.epoch modulus) : ticks = lock.ticks := by
  rwa [Seqlock.epoch, Nat.mod_eq_of_lt hlt, Nat.mod_eq_of_lt (Nat.lt_of_le_of_lt hle hlt)] at h

/-- A snapshot whose count the counter still has is up to date. -/
theorem Snapshot.current (h : Snapshot part modulus (lock.epoch modulus) read lock)
    (hlt : lock.ticks < modulus) : part lock.value = read := by
  obtain ⟨ticks, hle, -, hepoch, hsame⟩ := h
  exact hsame (ticks_eq_of_epoch_eq hle hlt hepoch)

/-- A part of the value that was read after the counter was at a count. -/
def ReadSince {β : Type*} (part : α → β) (modulus epoch : ℕ) (read : β) (lock : Seqlock α) : Prop :=
  ∃ before middle, before ≤ middle ∧ middle ≤ lock.ticks ∧ before % modulus = epoch ∧
    (middle = lock.ticks → lock.ticks % 2 = 0 → part lock.value = read)

theorem readSince_of_le {before : ℕ} (hle : before ≤ lock.ticks) (h : before % modulus = epoch) :
    ReadSince part modulus epoch (part lock.value) lock :=
  ⟨before, lock.ticks, hle, le_rfl, h, fun _ _ => rfl⟩

theorem ReadSince.step (h : ReadSince part modulus epoch read lock) (hstep : Step lock lock') :
    ReadSince part modulus epoch read lock' := by
  obtain ⟨before, middle, hbefore, hat, hepoch, hsame⟩ := h
  cases hstep with
  | tick =>
    refine ⟨before, middle, hbefore, Nat.le_succ_of_le hat, hepoch, fun heq => ?_⟩
    simp only at heq
    omega
  | write value hodd =>
    refine ⟨before, middle, hbefore, hat, hepoch, fun _ heven => ?_⟩
    simp only at heven
    omega

/-- A reader that finds the same even count again has a snapshot. -/
theorem ReadSince.snapshot (h : ReadSince part modulus (lock.epoch modulus) read lock)
    (heven : lock.ticks % 2 = 0) (hlt : lock.ticks < modulus) :
    Snapshot part modulus (lock.epoch modulus) read lock := by
  obtain ⟨before, middle, hbefore, hat, hepoch, hsame⟩ := h
  obtain rfl := ticks_eq_of_epoch_eq (Nat.le_trans hbefore hat) hlt hepoch
  rw [← hsame (Nat.le_antisymm hat hbefore) heven]
  exact snapshot_of_even heven

/-! ## Several steps -/

/-- What writers do in some time. -/
abbrev Steps : Seqlock α → Seqlock α → Prop := Relation.ReflTransGen Step

theorem Snapshot.steps (h : Snapshot part modulus epoch read lock) (hsteps : Steps lock lock') :
    Snapshot part modulus epoch read lock' := by
  induction hsteps with
  | refl => exact h
  | tail _ hstep ih => exact ih.step hstep

theorem ReadSince.steps (h : ReadSince part modulus epoch read lock) (hsteps : Steps lock lock') :
    ReadSince part modulus epoch read lock' := by
  induction hsteps with
  | refl => exact h
  | tail _ hstep ih => exact ih.step hstep

theorem le_ticks_of_steps (hsteps : Steps lock lock') : lock.ticks ≤ lock'.ticks := by
  induction hsteps with
  | refl => exact le_rfl
  | tail _ hstep ih =>
    refine Nat.le_trans ih ?_
    cases hstep with
    | tick => exact Nat.le_succ _
    | write => exact le_rfl

end Seqlock

end VizorWallet
