import Mathlib.Data.List.Basic
import Mathlib.Algebra.BigOperators.Group.List.Basic
import Mathlib.Algebra.GroupWithZero.Nat

/-!
# Cutting a list into batches

A list is cut into consecutive batches of given sizes; nothing is lost when the sizes add up to
the length of the list.
-/

namespace VizorWallet

/-- Cut a list into consecutive pieces of the given sizes. -/
def cutBatches {α : Type*} : List α → List ℕ → List (List α)
  | _, [] => []
  | pool, size :: sizes => pool.take size :: cutBatches (pool.drop size) sizes

theorem flatten_cutBatches {α : Type*} (pool : List α) (sizes : List ℕ)
    (h : sizes.sum = pool.length) : (cutBatches pool sizes).flatten = pool := by
  induction sizes generalizing pool with
  | nil => simpa [cutBatches, eq_comm] using h
  | cons size sizes ih =>
    rw [List.sum_cons] at h
    rw [cutBatches, List.flatten_cons, ih _ (by simp; omega), List.take_append_drop]

theorem map_length_cutBatches {α : Type*} (pool : List α) (sizes : List ℕ)
    (h : sizes.sum ≤ pool.length) : (cutBatches pool sizes).map List.length = sizes := by
  induction sizes generalizing pool with
  | nil => rfl
  | cons size sizes ih =>
    rw [List.sum_cons] at h
    rw [cutBatches, List.map_cons, List.length_take, ih _ (by rw [List.length_drop]; omega)]
    congr 1
    omega

end VizorWallet
