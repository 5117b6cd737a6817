import VizorWallet.Machine
import Mathlib.Data.List.Basic
import Mathlib.Data.List.Induction

/-!
# ZIP 318 denominations

The canonical denominations of `wallet/sync/migration/denomination_policy.rs`: one, two and five
times the powers of ten from a hundredth of a ZEC to ten thousand ZEC.
-/

namespace VizorWallet.Migration

def zip318MaxResidualValueZatoshi : ℕ := 1_000_000

def zip318MaxMigrationDenominationZatoshi : ℕ := 1_000_000_000_000

/-- The magnitudes the scan runs through, up to the largest denomination. -/
def magnitudes : List ℕ := (List.range 7).map fun i => zip318MaxResidualValueZatoshi * 10 ^ i

/-- The values the scan tries, in its order. -/
def scannedDenominations : List ℕ :=
  magnitudes.flatMap fun magnitude => [1, 2, 5].filterMap (checkedMul magnitude)

def largestZip318DenominationAtOrBelow (value : ℕ) : Option ℕ :=
  if value < zip318MaxResidualValueZatoshi then none
  else
    scannedDenominations.foldl
      (fun best denomination =>
        if denomination ≤ value ∧ denomination ≤ zip318MaxMigrationDenominationZatoshi then
          some denomination
        else best)
      none

def isZip318CanonicalDenomination (value : ℕ) : Bool :=
  largestZip318DenominationAtOrBelow value == some value

/-- The scan ends with one of the values it tried. -/
theorem foldl_scan_eq_some {value d : ℕ} {l : List ℕ} {best : Option ℕ}
    (h : l.foldl (fun best denomination =>
      if denomination ≤ value ∧ denomination ≤ zip318MaxMigrationDenominationZatoshi then
        some denomination else best) best = some d) :
    (d ∈ l ∧ d ≤ value ∧ d ≤ zip318MaxMigrationDenominationZatoshi) ∨ best = some d := by
  induction l generalizing best with
  | nil => exact .inr h
  | cons a rest ih =>
    obtain ⟨hmem, hle⟩ | heq := ih h
    · exact .inl ⟨List.mem_cons_of_mem _ hmem, hle⟩
    · simp only at heq
      split_ifs at heq with ha
      · obtain rfl := Option.some.inj heq
        exact .inl ⟨List.mem_cons_self, ha⟩
      · exact .inr heq

theorem largestZip318DenominationAtOrBelow_spec {value d : ℕ}
    (h : largestZip318DenominationAtOrBelow value = some d) :
    d ≤ value ∧ zip318MaxResidualValueZatoshi ≤ d ∧ isZip318CanonicalDenomination d := by
  unfold largestZip318DenominationAtOrBelow at h
  split_ifs at h
  obtain ⟨hmem, hle, hmax⟩ | hnone := foldl_scan_eq_some h
  · have hcanonical : ∀ d ∈ scannedDenominations, d ≤ zip318MaxMigrationDenominationZatoshi →
        zip318MaxResidualValueZatoshi ≤ d ∧ isZip318CanonicalDenomination d := by decide +kernel
    exact ⟨hle, hcanonical d hmem hmax⟩
  · cases hnone

/-- A canonical denomination lies between the two bounds. -/
theorem bounds_of_isZip318CanonicalDenomination {value : ℕ}
    (h : isZip318CanonicalDenomination value) :
    zip318MaxResidualValueZatoshi ≤ value ∧ value ≤ zip318MaxMigrationDenominationZatoshi := by
  have heq : largestZip318DenominationAtOrBelow value = some value := by
    simpa [isZip318CanonicalDenomination] using h
  refine ⟨(largestZip318DenominationAtOrBelow_spec heq).2.1, ?_⟩
  unfold largestZip318DenominationAtOrBelow at heq
  split_ifs at heq
  obtain ⟨-, -, hmax⟩ | hnone := foldl_scan_eq_some heq
  · exact hmax
  · cases hnone

/-- The scan ends at or above every value it tried that fits. -/
theorem le_of_foldl_scan {value d : ℕ} {l : List ℕ} (hsorted : l.Pairwise (· ≤ ·)) (hmem : d ∈ l)
    (hle : d ≤ value) (hmax : d ≤ zip318MaxMigrationDenominationZatoshi) :
    ∃ largest, l.foldl (fun best denomination =>
      if denomination ≤ value ∧ denomination ≤ zip318MaxMigrationDenominationZatoshi then
        some denomination else best) none = some largest ∧ d ≤ largest := by
  induction l using List.reverseRecOn with
  | nil => cases hmem
  | append_singleton l a ih =>
    obtain ⟨hinit, -, hlast⟩ := List.pairwise_append.1 hsorted
    rw [List.foldl_concat]
    split_ifs with ha
    · refine ⟨a, rfl, ?_⟩
      grind
    · refine ih hinit ?_
      grind

/-- A canonical denomination is one of the values the scan tries. -/
theorem mem_scannedDenominations {d : ℕ} (h : isZip318CanonicalDenomination d) :
    d ∈ scannedDenominations := by
  have heq : largestZip318DenominationAtOrBelow d = some d := by
    simpa [isZip318CanonicalDenomination] using h
  unfold largestZip318DenominationAtOrBelow at heq
  split_ifs at heq
  obtain ⟨hmem, -⟩ | hnone := foldl_scan_eq_some heq
  · exact hmem
  · cases hnone

/-- The denomination found is the largest canonical one that fits. -/
theorem le_largestZip318DenominationAtOrBelow {value d : ℕ} (hd : isZip318CanonicalDenomination d)
    (hle : d ≤ value) :
    ∃ largest, largestZip318DenominationAtOrBelow value = some largest ∧ d ≤ largest := by
  obtain ⟨hmin, hmax⟩ := bounds_of_isZip318CanonicalDenomination hd
  rw [largestZip318DenominationAtOrBelow, if_neg (by omega)]
  exact le_of_foldl_scan (by decide +kernel) (mem_scannedDenominations hd) hle hmax

/-- Below twice the least denomination there is no other. -/
theorem eq_of_isZip318CanonicalDenomination_of_lt {d : ℕ} (h : isZip318CanonicalDenomination d)
    (hlt : d < 2_000_000) : d = zip318MaxResidualValueZatoshi := by
  have hall : ∀ d ∈ scannedDenominations, d < 2_000_000 → d = zip318MaxResidualValueZatoshi := by
    decide +kernel
  exact hall d (mem_scannedDenominations h) hlt

end VizorWallet.Migration
