import Mathlib.Algebra.BigOperators.Group.Multiset.Basic
import Mathlib.Data.Multiset.UnionInter

/-!
# Books of coins

A book of account records, for coins of an arbitrary type, which coins were minted and which
were spent.  It *covers* a pool of coins when the spent coins and the pool together are among the
minted ones.  Posting a transaction spends part of the pool and adds new coins to it, so covering
is kept by every posting, and a covered book never spends a coin twice and never spends a coin
that was not minted.

## Main definitions

* `Book` — the minted and the spent coins.
* `Book.Covers` — the pool is still there to be spent.
* `Book.Exhausts` — nothing but the pool is there to be spent.
* `Book.post` — spend some coins and mint others.
-/

namespace VizorWallet

/-- The coins minted and the coins spent so far. -/
structure Book (κ : Type*) where
  minted : Multiset κ
  spent : Multiset κ

namespace Book

variable {κ : Type*} {b : Book κ} {pool pool' ins outs : Multiset κ}

/-- The spent coins and the pool together are among the minted coins. -/
def Covers (b : Book κ) (pool : Multiset κ) : Prop :=
  b.spent + pool ≤ b.minted

/-- Spend `ins` and mint `outs`. -/
def post (b : Book κ) (ins outs : Multiset κ) : Book κ where
  minted := b.minted + outs
  spent := b.spent + ins

@[simp] theorem minted_post : (b.post ins outs).minted = b.minted + outs := rfl

@[simp] theorem spent_post : (b.post ins outs).spent = b.spent + ins := rfl

theorem Covers.mono (h : b.Covers pool) (hle : pool' ≤ pool) : b.Covers pool' :=
  le_trans (add_le_add_right hle _) h

/-- A posting moves its inputs from the pool to the spent coins and adds its outputs to the
pool. -/
theorem Covers.post (h : b.Covers (ins + pool)) (outs : Multiset κ) :
    (b.post ins outs).Covers (pool + outs) := by
  have hle : b.spent + (ins + pool) + outs ≤ b.minted + outs := add_le_add_left h outs
  simpa [Covers, add_assoc] using hle

theorem Covers.spent_le (h : b.Covers pool) : b.spent ≤ b.minted :=
  le_trans (Multiset.le_add_right _ _) h

theorem Covers.mem_minted (h : b.Covers pool) {c : κ} (hc : c ∈ b.spent) : c ∈ b.minted :=
  Multiset.mem_of_le h.spent_le hc

/-- When the coins carry distinct keys, no key is spent twice. -/
theorem Covers.nodup_spent {ι : Type*} (key : κ → ι) (h : b.Covers pool)
    (hkey : (b.minted.map key).Nodup) : (b.spent.map key).Nodup :=
  Multiset.nodup_of_le (Multiset.map_le_map h.spent_le) hkey

/-- Minted coins are a covered pool when none of their keys is spent. -/
theorem covers_of_not_spent {ι : Type*} (key : κ → ι) (pool : Multiset κ)
    (hspent : b.spent ≤ b.minted) (hpool : pool ≤ b.minted) (hkey : (b.minted.map key).Nodup)
    (hnew : ∀ c ∈ pool, key c ∉ b.spent.map key) : b.Covers pool := by
  have hminted : b.minted.Nodup := Multiset.Nodup.of_map key hkey
  have hdisj : Disjoint b.spent pool :=
    Multiset.disjoint_left.2 fun hc hmem => hnew _ hmem (Multiset.mem_map_of_mem key hc)
  have hnodup : (b.spent + pool).Nodup :=
    Multiset.nodup_add.2 ⟨Multiset.nodup_of_le hspent hminted,
      Multiset.nodup_of_le hpool hminted, hdisj⟩
  refine (Multiset.le_iff_subset hnodup).2 fun c hc => ?_
  rcases Multiset.mem_add.1 hc with hc | hc
  · exact Multiset.mem_of_le hspent hc
  · exact Multiset.mem_of_le hpool hc

/-- Every minted coin is spent or in the pool. -/
def Exhausts (b : Book κ) (pool : Multiset κ) : Prop :=
  b.minted ≤ b.spent + pool

theorem Exhausts.mono (h : b.Exhausts pool) (hle : pool ≤ pool') : b.Exhausts pool' :=
  le_trans h (add_le_add_right hle _)

theorem Exhausts.post (h : b.Exhausts (ins + pool)) (outs : Multiset κ) :
    (b.post ins outs).Exhausts (pool + outs) := by
  have hle : b.minted + outs ≤ b.spent + (ins + pool) + outs := add_le_add_left h outs
  simpa [Exhausts, add_assoc] using hle

/-- Minted coins that are not spent are in the pool. -/
theorem Exhausts.le_pool [DecidableEq κ] {unspent : Multiset κ} (h : b.Exhausts pool)
    (hle : unspent ≤ b.minted) (hnot : ∀ c ∈ unspent, c ∉ b.spent) : unspent ≤ pool := by
  refine Multiset.le_iff_count.2 fun c => ?_
  by_cases hc : c ∈ unspent
  · have hcount := Multiset.le_iff_count.1 (le_trans hle h) c
    rw [Multiset.count_add, Multiset.count_eq_zero_of_notMem (hnot c hc), zero_add] at hcount
    exact hcount
  · rw [Multiset.count_eq_zero_of_notMem hc]
    exact Nat.zero_le _

theorem Covers.sum_pool_le (value : κ → ℕ) (h : b.Covers pool) :
    (b.spent.map value).sum + (pool.map value).sum ≤ (b.minted.map value).sum := by
  obtain ⟨rest, hrest⟩ := Multiset.le_iff_exists_add.1 h
  rw [hrest, Multiset.map_add, Multiset.sum_add, Multiset.map_add, Multiset.sum_add]
  omega

end Book

end VizorWallet
