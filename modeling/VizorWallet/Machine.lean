import Mathlib.Data.Nat.Basic
import Mathlib.Algebra.BigOperators.Group.List.Basic
import Mathlib.Algebra.GroupWithZero.Nat

/-!
# Unsigned machine arithmetic

The `u64` operations of the source on natural numbers below `2 ^ 64`: the wrapping ones, which a
release build uses for plain `+` and `-`, and the checked ones.
-/

namespace VizorWallet

/-- The number of `u64` values. -/
def u64Size : ℕ := 2 ^ 64

/-- Release-mode `u64` addition. -/
def wrappingAdd (a b : ℕ) : ℕ := (a + b) % u64Size

/-- Release-mode `u64` subtraction. -/
def wrappingSub (a b : ℕ) : ℕ := if b ≤ a then a - b else a + u64Size - b

/-- Release-mode `iter().sum::<u64>()`. -/
def wrappingSum (values : List ℕ) : ℕ := values.foldl wrappingAdd 0

/-- `u64::checked_add`. -/
def checkedAdd (a b : ℕ) : Option ℕ := if a + b < u64Size then some (a + b) else none

/-- `u64::checked_sub`. -/
def checkedSub (a b : ℕ) : Option ℕ := if b ≤ a then some (a - b) else none

/-- `u64::checked_mul`. -/
def checkedMul (a b : ℕ) : Option ℕ := if a * b < u64Size then some (a * b) else none

theorem wrappingAdd_of_lt {a b : ℕ} (h : a + b < u64Size) : wrappingAdd a b = a + b :=
  Nat.mod_eq_of_lt h

theorem wrappingSub_of_le {a b : ℕ} (h : b ≤ a) : wrappingSub a b = a - b :=
  if_pos h

theorem checkedSub_of_le {a b : ℕ} (h : b ≤ a) : checkedSub a b = some (a - b) :=
  if_pos h

theorem wrappingAdd_lt (a b : ℕ) : wrappingAdd a b < u64Size :=
  Nat.mod_lt _ (by decide)

/-- A subtraction undoes an addition, whether or not it wrapped. -/
theorem wrappingSub_wrappingAdd {a b : ℕ} (ha : a < u64Size) (hb : b < u64Size) :
    wrappingSub (wrappingAdd a b) b = a := by
  unfold wrappingSub wrappingAdd
  rcases Nat.lt_or_ge (a + b) u64Size with h | h
  · rw [Nat.mod_eq_of_lt h]
    split_ifs <;> omega
  · rw [Nat.mod_eq_sub_mod h, Nat.mod_eq_of_lt (by omega)]
    split_ifs <;> omega

theorem wrappingAdd_assoc (a b c : ℕ) :
    wrappingAdd (wrappingAdd a b) c = wrappingAdd a (wrappingAdd b c) := by
  simp only [wrappingAdd, Nat.mod_add_mod, Nat.add_mod_mod, Nat.add_assoc]

theorem wrappingAdd_comm (a b : ℕ) : wrappingAdd a b = wrappingAdd b a := by
  rw [wrappingAdd, wrappingAdd, Nat.add_comm]

theorem wrappingSum_lt (values : List ℕ) : wrappingSum values < u64Size := by
  have hfold : ∀ start < u64Size, values.foldl wrappingAdd start < u64Size := by
    induction values with
    | nil => exact fun _ h => h
    | cons v rest ih => exact fun start _ => ih _ (wrappingAdd_lt start v)
  exact hfold 0 (by decide)

/-- The total of some values beside a start. -/
theorem foldl_wrappingAdd {start : ℕ} (hstart : start < u64Size) (values : List ℕ) :
    values.foldl wrappingAdd start = wrappingAdd start (wrappingSum values) := by
  have hfold : ∀ a, values.foldl wrappingAdd (wrappingAdd start a) =
      wrappingAdd start (values.foldl wrappingAdd a) := by
    induction values with
    | nil => exact fun _ => rfl
    | cons v rest ih => exact fun a => by rw [List.foldl_cons, wrappingAdd_assoc, ih]; rfl
  have hzero : wrappingAdd start 0 = start := Nat.mod_eq_of_lt hstart
  rw [← hzero, hfold 0, hzero]
  rfl

theorem foldl_wrappingAdd_of_lt {values : List ℕ} (start : ℕ)
    (h : start + values.sum < u64Size) : values.foldl wrappingAdd start = start + values.sum := by
  induction values generalizing start with
  | nil => simp
  | cons v rest ih =>
    rw [List.sum_cons] at h
    rw [List.foldl_cons, wrappingAdd_of_lt (by omega), ih _ (by omega), List.sum_cons]
    omega

theorem wrappingSum_of_lt {values : List ℕ} (h : values.sum < u64Size) :
    wrappingSum values = values.sum := by
  simpa [wrappingSum] using foldl_wrappingAdd_of_lt 0 (by simpa using h)

@[simp] theorem checkedAdd_eq_some {a b c : ℕ} :
    checkedAdd a b = some c ↔ a + b < u64Size ∧ a + b = c := by
  simp [checkedAdd]

@[simp] theorem checkedSub_eq_some {a b c : ℕ} :
    checkedSub a b = some c ↔ b ≤ a ∧ a - b = c := by
  simp [checkedSub]

@[simp] theorem checkedMul_eq_some {a b c : ℕ} :
    checkedMul a b = some c ↔ a * b < u64Size ∧ a * b = c := by
  simp [checkedMul]

end VizorWallet
