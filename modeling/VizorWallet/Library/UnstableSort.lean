import Mathlib.Data.List.Sort
import Mathlib.Algebra.BigOperators.Group.Multiset.Basic
import Mathlib.Algebra.GroupWithZero.Nat

/-!
# Sorting largest first

`sort_unstable_by_key` promises a permutation of the slice in the order of the keys and says
nothing about elements of equal keys.  `UnstableSort` is a sorting function with that promise and
no other.  For plain numbers the promise determines the result, which `sortDescending` computes.

## Main definitions

* `UnstableSort` — a sorting function that may place equal keys in any order.
* `sortDescending` — numbers, largest first.
-/

namespace VizorWallet

/-- A deterministic sorting function, largest key first, with equal keys in any order. -/
structure UnstableSort {α : Type*} (key : α → ℕ) where
  sort : List α → List α
  perm : ∀ l, (sort l).Perm l
  sorted : ∀ l, (sort l).Pairwise fun a b => key b ≤ key a

namespace UnstableSort

variable {α : Type*} {key : α → ℕ} (S : UnstableSort key)

@[simp] theorem mem_sort {l : List α} {a : α} : a ∈ S.sort l ↔ a ∈ l :=
  (S.perm l).mem_iff

@[simp] theorem length_sort (l : List α) : (S.sort l).length = l.length :=
  (S.perm l).length_eq

theorem coe_sort (l : List α) : (S.sort l : Multiset α) = l :=
  Multiset.coe_eq_coe.2 (S.perm l)

/-- Insertion sort keeps the promise. -/
def ofInsertion (key : α → ℕ) : UnstableSort key where
  sort := List.insertionSort fun a b => key b ≤ key a
  perm := List.perm_insertionSort _
  sorted l := by
    have : Std.Total fun a b : α => key b ≤ key a := ⟨fun a b => le_total (key b) (key a)⟩
    have : IsTrans α fun a b => key b ≤ key a := ⟨fun _ _ _ hab hbc => hbc.trans hab⟩
    exact List.pairwise_insertionSort _ l

end UnstableSort

/-- The numbers of a list, largest first. -/
def sortDescending (l : List ℕ) : List ℕ :=
  l.insertionSort (· ≥ ·)

theorem perm_sortDescending (l : List ℕ) : (sortDescending l).Perm l :=
  List.perm_insertionSort _ l

theorem pairwise_sortDescending (l : List ℕ) : (sortDescending l).Pairwise (· ≥ ·) :=
  List.pairwise_insertionSort _ l

@[simp] theorem mem_sortDescending {l : List ℕ} {n : ℕ} : n ∈ sortDescending l ↔ n ∈ l :=
  (perm_sortDescending l).mem_iff

@[simp] theorem length_sortDescending (l : List ℕ) : (sortDescending l).length = l.length :=
  (perm_sortDescending l).length_eq

theorem sum_sortDescending (l : List ℕ) : (sortDescending l).sum = l.sum :=
  (perm_sortDescending l).sum_eq

/-- A list in descending order is its own sorted form. -/
theorem sortDescending_eq_of_pairwise {l m : List ℕ} (hp : l.Perm m) (hl : l.Pairwise (· ≥ ·)) :
    sortDescending m = l :=
  ((perm_sortDescending m).trans hp.symm).eq_of_pairwise' (pairwise_sortDescending m) hl

/-- Permuted lists have one sorted form. -/
theorem sortDescending_congr {l m : List ℕ} (hp : l.Perm m) :
    sortDescending l = sortDescending m :=
  (sortDescending_eq_of_pairwise ((perm_sortDescending l).trans hp)
    (pairwise_sortDescending l)).symm

end VizorWallet
