import VizorWallet.Machine
import VizorWallet.Migration.Store.Schedule

/-!
# Anchors of migration proofs

A proof is anchored at a boundary of blocks: a multiple of the bucket modulus that lies some buckets
before the newest boundary, not before the note and after the activation of NU6.3. The candidates
are listed by age, and an anchor is drawn from those that are available, newer ones more often.

## Main definitions

* `zip318AnchorCandidateBoundariesWithPolicy` — the candidates, newest first.
* `zip318AnchorBoundaryIsCandidateWithPolicy` — the check of one boundary.
* `zip318DrawAnchorBoundaryFromAvailableWithPolicy` — the weighted draw.

## Main results

* `anchor_candidates_agree` — the list holds what the check accepts, and every draw succeeds.
-/

namespace VizorWallet.Migration

open Store (WalletNetwork MigrationTimingPolicy saturatingAdd)

def zip318AnchorAgeCap : ℕ := 4

def anchorBucketModulus : WalletNetwork → MigrationTimingPolicy → ℕ
  | .regtest, .fastTestnet => 12
  | .regtest, _ => 1
  | .test, .fastTestnet => 12
  | .main, _ | .test, _ => 144

def anchorBucketMinAge : WalletNetwork → MigrationTimingPolicy → ℕ
  | .regtest, .fastTestnet => 1
  | .regtest, _ => 0
  | .test, .fastTestnet => 1
  | .main, .standard90MinutesLatestAnchor | .test, .standard90MinutesLatestAnchor => 0
  | .main, _ | .test, _ => 1

/-- An operation on `u32` that reports an overflow. -/
def checkedU32 (value : ℕ) : Option ℕ := if value < 2 ^ 32 then some value else none

section Policy

variable (network : WalletNetwork) (timingPolicy : MigrationTimingPolicy)

def zip318AnchorBoundaryAtOrBeforeWithPolicy (height : ℕ) : Option ℕ :=
  let boundary := height - height % anchorBucketModulus network timingPolicy
  if 0 < boundary then some boundary else none

/-- The ages that are allowed, from the youngest. -/
def anchorAges : List ℕ :=
  List.range' (anchorBucketMinAge network timingPolicy)
    (zip318AnchorAgeCap + 1 - anchorBucketMinAge network timingPolicy)

def zip318AnchorBoundaryAge (latestBoundary anchorBoundary : ℕ) : Option ℕ := do
  if latestBoundary < anchorBoundary then none
  else
    let delta ← checkedSub latestBoundary anchorBoundary
    let modulus := anchorBucketModulus network timingPolicy
    if delta % modulus ≠ 0 then none
    else
      let age := delta / modulus
      if anchorBucketMinAge network timingPolicy ≤ age ∧ age ≤ zip318AnchorAgeCap then some age
      else none

/-- The loop over the ages, which ends at the first that is too old. -/
def anchorCandidates (latestBoundary lowerBound : ℕ) : List ℕ → List ℕ
  | [] => []
  | age :: older =>
    match checkedU32 (age * anchorBucketModulus network timingPolicy) with
    | none => []
    | some distance =>
      match checkedSub latestBoundary distance with
      | none => []
      | some boundary =>
        if boundary < lowerBound then []
        else boundary :: anchorCandidates latestBoundary lowerBound older

def zip318AnchorCandidateBoundariesWithPolicy (observedAnchorHeight noteMinedHeight
    nu63ActivationHeight : ℕ) : List ℕ :=
  match zip318AnchorBoundaryAtOrBeforeWithPolicy network timingPolicy observedAnchorHeight with
  | none => []
  | some latestBoundary =>
    anchorCandidates network timingPolicy latestBoundary
      (max noteMinedHeight (saturatingAdd nu63ActivationHeight 1)) (anchorAges network timingPolicy)

def zip318AnchorBoundaryIsCandidateWithPolicy (anchorBoundary observedAnchorHeight noteMinedHeight
    nu63ActivationHeight : ℕ) : Bool :=
  if anchorBoundary = 0 ∨ anchorBoundary % anchorBucketModulus network timingPolicy ≠ 0 then false
  else if anchorBoundary < noteMinedHeight ∨ anchorBoundary ≤ nu63ActivationHeight then false
  else
    match zip318AnchorBoundaryAtOrBeforeWithPolicy network timingPolicy observedAnchorHeight with
    | none => false
    | some latestBoundary =>
      (zip318AnchorBoundaryAge network timingPolicy latestBoundary anchorBoundary).isSome

/-- The weights of some boundaries, and their total. -/
def weightedBoundaries (latestBoundary : ℕ) :
    List ℕ → ℕ → Option (List (ℕ × ℕ) × ℕ)
  | [], totalWeight => some ([], totalWeight)
  | boundary :: rest, totalWeight => do
    let age ← zip318AnchorBoundaryAge network timingPolicy latestBoundary boundary
    let weight := 1 <<< (zip318AnchorAgeCap - age)
    let totalWeight ← checkedU32 (totalWeight + weight)
    let (weighted, totalWeight) ← weightedBoundaries latestBoundary rest totalWeight
    return ((boundary, weight) :: weighted, totalWeight)

/-- The boundary whose part of the total weight a draw falls into. -/
def pickWeighted : List (ℕ × ℕ) → ℕ → Option ℕ
  | [], _ => none
  | (boundary, weight) :: rest, draw =>
    if draw < weight then some boundary else pickWeighted rest (draw - weight)

/-- `random` draws below a positive bound. -/
def zip318DrawAnchorBoundaryFromAvailableWithPolicy (random : (bound : ℕ) → 0 < bound → Fin bound)
    (observedAnchorHeight : ℕ) (availableCandidates : List ℕ) : Option ℕ := do
  let latestBoundary ←
    zip318AnchorBoundaryAtOrBeforeWithPolicy network timingPolicy observedAnchorHeight
  if availableCandidates = [] then none
  else
    let (weighted, totalWeight) ←
      weightedBoundaries network timingPolicy latestBoundary availableCandidates 0
    if hpos : 0 < totalWeight then pickWeighted weighted (random totalWeight hpos) else none

end Policy

variable {network : WalletNetwork} {timingPolicy : MigrationTimingPolicy}
  {observed mined activation latest lower boundary : ℕ}

/-! ## Bounds of the policy -/

theorem anchorBucketModulus_bounds (network : WalletNetwork)
    (timingPolicy : MigrationTimingPolicy) :
    0 < anchorBucketModulus network timingPolicy ∧
      anchorBucketModulus network timingPolicy ≤ 144 := by
  cases network <;> cases timingPolicy <;> decide

theorem anchorBucketMinAge_le (network : WalletNetwork) (timingPolicy : MigrationTimingPolicy) :
    anchorBucketMinAge network timingPolicy ≤ 1 := by
  cases network <;> cases timingPolicy <;> decide

theorem mem_anchorAges {age : ℕ} : age ∈ anchorAges network timingPolicy ↔
    anchorBucketMinAge network timingPolicy ≤ age ∧ age ≤ zip318AnchorAgeCap := by
  have hmin := anchorBucketMinAge_le network timingPolicy
  unfold anchorAges zip318AnchorAgeCap
  rw [List.mem_range'_1]
  omega

theorem latest_eq_some (h : zip318AnchorBoundaryAtOrBeforeWithPolicy network timingPolicy observed =
    some latest) : latest % anchorBucketModulus network timingPolicy = 0 ∧ 0 < latest := by
  simp only [zip318AnchorBoundaryAtOrBeforeWithPolicy] at h
  split at h
  · rename_i hpos
    obtain rfl := Option.some.inj h
    exact ⟨Nat.sub_mod_eq_zero_of_mod_eq (Nat.mod_mod _ _).symm, hpos⟩
  · nomatch h

/-- An age is the number of buckets between a boundary and the newest. -/
theorem age_eq_some {age : ℕ} :
    zip318AnchorBoundaryAge network timingPolicy latest boundary = some age ↔
      age ∈ anchorAges network timingPolicy ∧
        boundary + age * anchorBucketModulus network timingPolicy = latest := by
  have hpos := (anchorBucketModulus_bounds network timingPolicy).1
  rw [mem_anchorAges]
  unfold zip318AnchorBoundaryAge
  constructor
  · intro h
    split at h
    · nomatch h
    rename_i hle
    obtain ⟨delta, hdelta, h⟩ := bind_eq_some.1 h
    obtain ⟨-, rfl⟩ := checkedSub_eq_some.1 hdelta
    dsimp only at h
    split at h
    · nomatch h
    rename_i hdvd
    split at h
    · rename_i hage
      obtain rfl := Option.some.inj h
      refine ⟨hage, ?_⟩
      have := Nat.div_mul_cancel (Nat.dvd_of_mod_eq_zero (not_not.1 hdvd))
      omega
    · nomatch h
  · rintro ⟨hage, rfl⟩
    have hdelta : boundary + age * anchorBucketModulus network timingPolicy - boundary =
        age * anchorBucketModulus network timingPolicy := Nat.add_sub_cancel_left ..
    rw [if_neg (by omega), checkedSub, if_pos (by omega), hdelta]
    simp only [Option.bind_eq_bind, Option.bind_some, Nat.mul_mod_left, ne_eq, not_true_eq_false,
      if_false, Nat.mul_div_cancel _ hpos]
    exact if_pos hage

/-! ## The candidates -/

/-- The candidates of some ages are the boundaries with those ages, down to the lower bound. -/
theorem mem_anchorCandidates {ages : List ℕ} (hcap : ∀ age ∈ ages, age ≤ zip318AnchorAgeCap)
    (hsorted : ages.Pairwise (· < ·)) :
    boundary ∈ anchorCandidates network timingPolicy latest lower ages ↔
      lower ≤ boundary ∧
        ∃ age ∈ ages, boundary + age * anchorBucketModulus network timingPolicy = latest := by
  induction ages with
  | nil => simp [anchorCandidates]
  | cons age older ih =>
    obtain ⟨hpos, hmodulus⟩ := anchorBucketModulus_bounds network timingPolicy
    obtain ⟨hage, hcap⟩ := List.forall_mem_cons.1 hcap
    obtain ⟨hyounger, hsorted⟩ := List.pairwise_cons.1 hsorted
    have hdistance : age * anchorBucketModulus network timingPolicy < 2 ^ 32 :=
      lt_of_le_of_lt (Nat.mul_le_mul hage hmodulus) (by decide)
    -- an older age that still fits would make the younger one fit
    have holder (older' : ℕ) (hmem : older' ∈ older) :
        age * anchorBucketModulus network timingPolicy <
          older' * anchorBucketModulus network timingPolicy :=
      Nat.mul_lt_mul_of_pos_right (hyounger older' hmem) hpos
    simp only [anchorCandidates, checkedU32, if_pos hdistance, List.exists_mem_cons_iff]
    cases hsub : checkedSub latest (age * anchorBucketModulus network timingPolicy) with
    | none =>
      simp only [checkedSub, ite_eq_right_iff, reduceCtorEq, imp_false, not_le] at hsub
      refine ⟨fun h => absurd h List.not_mem_nil, ?_⟩
      rintro ⟨-, heq | ⟨older', hmem, heq⟩⟩
      · omega
      · have := holder older' hmem
        omega
    | some candidate =>
      obtain ⟨hle, rfl⟩ := checkedSub_eq_some.1 hsub
      simp only
      split
      · rename_i hlower
        refine ⟨fun h => absurd h List.not_mem_nil, ?_⟩
        rintro ⟨hbound, heq | ⟨older', hmem, heq⟩⟩
        · omega
        · have := holder older' hmem
          omega
      · rename_i hlower
        rw [List.mem_cons, ih hcap hsorted]
        constructor
        · rintro (rfl | ⟨hbound, hrest⟩)
          · exact ⟨by omega, .inl (by omega)⟩
          · exact ⟨hbound, .inr hrest⟩
        · rintro ⟨hbound, heq | hrest⟩
          · exact .inl (by omega)
          · exact .inr ⟨hbound, hrest⟩

theorem anchorCandidates_pairwise {ages : List ℕ} (hcap : ∀ age ∈ ages, age ≤ zip318AnchorAgeCap)
    (hsorted : ages.Pairwise (· < ·)) :
    (anchorCandidates network timingPolicy latest lower ages).Pairwise (· > ·) := by
  induction ages with
  | nil => exact .nil
  | cons age older ih =>
    obtain ⟨hpos, -⟩ := anchorBucketModulus_bounds network timingPolicy
    obtain ⟨-, hcap⟩ := List.forall_mem_cons.1 hcap
    obtain ⟨hyounger, hsorted⟩ := List.pairwise_cons.1 hsorted
    unfold anchorCandidates
    split
    · exact .nil
    rename_i distance hdistance
    obtain ⟨-, rfl⟩ : _ ∧ age * anchorBucketModulus network timingPolicy = distance := by
      simpa [checkedU32] using hdistance
    split
    · exact .nil
    rename_i candidate hsub
    obtain ⟨hle, rfl⟩ := checkedSub_eq_some.1 hsub
    split
    · exact .nil
    refine List.pairwise_cons.2 ⟨fun boundary hmem => ?_, ih hcap hsorted⟩
    obtain ⟨-, older', hmem', heq⟩ := (mem_anchorCandidates hcap hsorted).1 hmem
    have := Nat.mul_lt_mul_of_pos_right (hyounger older' hmem') hpos
    omega

theorem anchorAges_sorted : (anchorAges network timingPolicy).Pairwise (· < ·) :=
  List.pairwise_lt_range' ..

theorem anchorAges_le : ∀ age ∈ anchorAges network timingPolicy, age ≤ zip318AnchorAgeCap :=
  fun _ hmem => (mem_anchorAges.1 hmem).2

/-- A candidate has an age, and lies not before the note and after the activation. -/
theorem mem_candidateBoundaries (hactivation : activation < 2 ^ 32 - 1) :
    boundary ∈ zip318AnchorCandidateBoundariesWithPolicy network timingPolicy observed mined
      activation ↔
    ∃ latest, zip318AnchorBoundaryAtOrBeforeWithPolicy network timingPolicy observed = some latest ∧
      mined ≤ boundary ∧ activation < boundary ∧
      ∃ age ∈ anchorAges network timingPolicy,
        boundary + age * anchorBucketModulus network timingPolicy = latest := by
  unfold zip318AnchorCandidateBoundariesWithPolicy
  cases zip318AnchorBoundaryAtOrBeforeWithPolicy network timingPolicy observed with
  | none => simp
  | some latest =>
    have hlower : max mined (min (activation + 1) (2 ^ 32 - 1)) ≤ boundary ↔
        mined ≤ boundary ∧ activation < boundary := by omega
    simp only [mem_anchorCandidates anchorAges_le anchorAges_sorted, saturatingAdd, hlower,
      Option.some.injEq, exists_eq_left', and_assoc]

/-- The check accepts the same boundaries. -/
theorem isCandidate_iff :
    zip318AnchorBoundaryIsCandidateWithPolicy network timingPolicy boundary observed mined
      activation ↔
    ∃ latest, zip318AnchorBoundaryAtOrBeforeWithPolicy network timingPolicy observed = some latest ∧
      mined ≤ boundary ∧ activation < boundary ∧
      ∃ age ∈ anchorAges network timingPolicy,
        boundary + age * anchorBucketModulus network timingPolicy = latest := by
  unfold zip318AnchorBoundaryIsCandidateWithPolicy
  cases hlatest : zip318AnchorBoundaryAtOrBeforeWithPolicy network timingPolicy observed with
  | none => simp
  | some latest =>
    obtain ⟨hmultiple, -⟩ := latest_eq_some hlatest
    have hage : (zip318AnchorBoundaryAge network timingPolicy latest boundary).isSome ↔
        ∃ age ∈ anchorAges network timingPolicy,
          boundary + age * anchorBucketModulus network timingPolicy = latest := by
      simp only [Option.isSome_iff_exists, age_eq_some]
    -- a boundary some buckets before the newest is a multiple of the bucket
    have hdvd (age : ℕ) (heq : boundary + age * anchorBucketModulus network timingPolicy = latest) :
        boundary % anchorBucketModulus network timingPolicy = 0 := by
      rwa [← heq, Nat.add_mul_mod_self_right] at hmultiple
    simp only [Option.some.injEq, exists_eq_left']
    split
    · rename_i hzero
      refine ⟨fun h => absurd h Bool.false_ne_true, ?_⟩
      rintro ⟨-, hactivated, age, -, heq⟩
      exact absurd hzero (not_or.2 ⟨by omega, not_not.2 (hdvd age heq)⟩)
    · split
      · rename_i hbounds
        refine ⟨fun h => absurd h Bool.false_ne_true, fun h => ?_⟩
        omega
      · rw [hage]
        exact ⟨fun h => ⟨by omega, by omega, h⟩, fun h => h.2.2⟩

/-! ## The draw -/

/-- The weights add up, and each is positive. -/
theorem weightedBoundaries_eq {candidates : List ℕ} (total : ℕ)
    (haged : ∀ boundary ∈ candidates, ∃ age,
      zip318AnchorBoundaryAge network timingPolicy latest boundary = some age)
    (htotal : total + 16 * candidates.length < 2 ^ 32) :
    ∃ weighted total', weightedBoundaries network timingPolicy latest candidates total =
        some (weighted, total') ∧
      weighted.map Prod.fst = candidates ∧ (∀ entry ∈ weighted, 0 < entry.2) ∧
      total' = total + (weighted.map Prod.snd).sum := by
  induction candidates generalizing total with
  | nil => exact ⟨[], total, rfl, rfl, fun _ h => absurd h List.not_mem_nil, rfl⟩
  | cons boundary rest ih =>
    obtain ⟨⟨age, hage⟩, haged⟩ := List.forall_mem_cons.1 haged
    have hcap := anchorAges_le age (age_eq_some.1 hage).1
    rw [List.length_cons] at htotal
    have hweight : 0 < 1 <<< (zip318AnchorAgeCap - age) ∧
        1 <<< (zip318AnchorAgeCap - age) ≤ 16 := by
      rw [Nat.one_shiftLeft]
      exact ⟨by positivity, (Nat.pow_le_pow_right (by decide) (Nat.sub_le _ _)).trans (by decide)⟩
    obtain ⟨weighted, total', heq, hfst, hpos, hsum⟩ :=
      ih (total + 1 <<< (zip318AnchorAgeCap - age)) haged (by omega)
    refine ⟨(boundary, 1 <<< (zip318AnchorAgeCap - age)) :: weighted, total', ?_,
      by rw [List.map_cons, hfst], List.forall_mem_cons.2 ⟨hweight.1, hpos⟩, ?_⟩
    · simp only [weightedBoundaries, hage, Option.bind_eq_bind, Option.bind_some, checkedU32]
      rw [if_pos (by omega), Option.bind_some, heq]
      rfl
    · rw [hsum, List.map_cons, List.sum_cons]
      omega

/-- A draw below the total weight falls into a part. -/
theorem pickWeighted_mem {weighted : List (ℕ × ℕ)} {draw : ℕ}
    (h : draw < (weighted.map Prod.snd).sum) :
    ∃ boundary ∈ weighted.map Prod.fst, pickWeighted weighted draw = some boundary := by
  induction weighted generalizing draw with
  | nil => exact absurd h (Nat.not_lt_zero _)
  | cons entry rest ih =>
    obtain ⟨boundary, weight⟩ := entry
    rw [List.map_cons, List.sum_cons] at h
    unfold pickWeighted
    split
    · exact ⟨boundary, List.mem_cons_self, rfl⟩
    · have hrest : draw - weight < (rest.map Prod.snd).sum := by omega
      obtain ⟨boundary', hmem, heq⟩ := ih hrest
      exact ⟨boundary', List.mem_cons_of_mem _ hmem, heq⟩

theorem draw_eq_some {random : (bound : ℕ) → 0 < bound → Fin bound} {candidates : List ℕ}
    (hlatest : zip318AnchorBoundaryAtOrBeforeWithPolicy network timingPolicy observed = some latest)
    (haged : ∀ boundary ∈ candidates, ∃ age,
      zip318AnchorBoundaryAge network timingPolicy latest boundary = some age)
    (hne : candidates ≠ []) (hlength : candidates.length ≤ 5) :
    ∃ boundary ∈ candidates, zip318DrawAnchorBoundaryFromAvailableWithPolicy network timingPolicy
      random observed candidates = some boundary := by
  obtain ⟨weighted, total, heq, hfst, hpos, hsum⟩ :=
    weightedBoundaries_eq 0 haged (by omega)
  have htotal : 0 < total := by
    obtain ⟨entry, rest, rfl⟩ : ∃ entry rest, weighted = entry :: rest :=
      List.exists_cons_of_ne_nil fun hnil => hne (by rw [← hfst, hnil, List.map_nil])
    have := hpos entry List.mem_cons_self
    rw [hsum, List.map_cons, List.sum_cons]
    omega
  have hdraw : (random total htotal : ℕ) < (weighted.map Prod.snd).sum := by
    have := (random total htotal).isLt
    omega
  obtain ⟨boundary, hmem, hpick⟩ := pickWeighted_mem hdraw
  refine ⟨boundary, hfst ▸ hmem, ?_⟩
  simp only [zip318DrawAnchorBoundaryFromAvailableWithPolicy, hlatest, Option.bind_eq_bind,
    Option.bind_some, if_neg hne, heq, dif_pos htotal]
  exact hpick

theorem anchorCandidates_length (ages : List ℕ) :
    (anchorCandidates network timingPolicy latest lower ages).length ≤ ages.length := by
  induction ages with
  | nil => exact le_rfl
  | cons age older ih =>
    unfold anchorCandidates
    grind

theorem candidateBoundaries_length :
    (zip318AnchorCandidateBoundariesWithPolicy network timingPolicy observed mined
      activation).length ≤ 5 := by
  unfold zip318AnchorCandidateBoundariesWithPolicy
  split
  · exact Nat.zero_le _
  · refine (anchorCandidates_length _).trans ?_
    rw [anchorAges, List.length_range', zip318AnchorAgeCap]
    omega

/-- The generator lists, strictly decreasing, exactly the boundaries that the check accepts; and
from what is available of them, every draw yields one. -/
theorem anchor_candidates_agree (network : WalletNetwork) (timingPolicy : MigrationTimingPolicy)
    (observed mined activation : ℕ) (hactivation : activation < 2 ^ 32 - 1) :
    let candidates := zip318AnchorCandidateBoundariesWithPolicy network timingPolicy observed mined
      activation
    (∀ boundary, boundary ∈ candidates ↔
      zip318AnchorBoundaryIsCandidateWithPolicy network timingPolicy boundary observed mined
        activation) ∧
    candidates.Nodup ∧ candidates.Pairwise (· > ·) ∧
    ∀ available, available.Sublist candidates → available ≠ [] →
      ∀ random : (bound : ℕ) → 0 < bound → Fin bound, ∃ boundary ∈ available,
        zip318DrawAnchorBoundaryFromAvailableWithPolicy network timingPolicy random observed
          available = some boundary := by
  intro candidates
  have hsorted : candidates.Pairwise (· > ·) := by
    unfold candidates zip318AnchorCandidateBoundariesWithPolicy
    split
    · exact .nil
    · exact anchorCandidates_pairwise anchorAges_le anchorAges_sorted
  refine ⟨fun boundary => ?_, hsorted.imp fun h => Nat.ne_of_gt h, hsorted,
    fun available hsub hne random => ?_⟩
  · rw [mem_candidateBoundaries hactivation, isCandidate_iff]
  · obtain ⟨first, hfirst⟩ := List.exists_mem_of_ne_nil available hne
    obtain ⟨latest, hlatest, -⟩ := (mem_candidateBoundaries hactivation).1 (hsub.subset hfirst)
    refine draw_eq_some hlatest (fun boundary hmem => ?_) hne
      (hsub.length_le.trans candidateBoundaries_length)
    obtain ⟨latest', hlatest', -, -, age, hage, heq⟩ :=
      (mem_candidateBoundaries hactivation).1 (hsub.subset hmem)
    obtain rfl := Option.some.inj (hlatest.symm.trans hlatest')
    exact ⟨age, age_eq_some.2 ⟨hage, heq⟩⟩

/-- Before block 1000 of the main network, one boundary can be used for a note of block 600. -/
theorem anchor_candidates_agree_main :
    zip318AnchorCandidateBoundariesWithPolicy .main .standard 1000 600 500 = [720] ∧
      (720 ∈ zip318AnchorCandidateBoundariesWithPolicy .main .standard 1000 600 500 ↔
        zip318AnchorBoundaryIsCandidateWithPolicy .main .standard 720 1000 600 500) :=
  ⟨by decide, (anchor_candidates_agree .main .standard 1000 600 500 (by decide)).1 720⟩

end VizorWallet.Migration
