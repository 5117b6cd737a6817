import VizorWallet.Migration.Anchor
import VizorWallet.Migration.Store.Parts

/-!
# When a proof can be tried again

A prepared note can be proved when the boundary that contains it has aged and is trusted. A proof
without a usable anchor is put off to the height at which the next boundary is trusted.

## Main definitions

* `proofReadyHeightForNoteMinedHeight` — when a note has its first candidate.
* `nextAnchorRetryHeightAfter` — when the candidates of a scanned height are renewed.

## Main results

* `retry_waits_iff` — a retry passes no candidate, except that of a boundary that is scanned and not
  yet trusted when the policy takes the newest boundary.
-/

namespace VizorWallet.Migration

open Store (WalletNetwork MigrationTimingPolicy saturatingAdd)

section Policy

variable (network : WalletNetwork) (timingPolicy : MigrationTimingPolicy)

def anchorBoundaryContainingNoteWithPolicy (minedHeight : ℕ) : Except String ℕ :=
  let modulus := anchorBucketModulus network timingPolicy
  let remainder := minedHeight % modulus
  if remainder = 0 then .ok minedHeight
  else Store.checkedAdd minedHeight (modulus - remainder) "Migration anchor boundary overflow"

/-- `trusted` is the number of confirmations that a trusted output needs. -/
def proofReadyHeightForNoteMinedHeight (trusted minedHeight : ℕ) : Except String ℕ := do
  let modulus := anchorBucketModulus network timingPolicy
  let confirmationLag := trusted - 1
  let containingBoundary ←
    anchorBoundaryContainingNoteWithPolicy network timingPolicy minedHeight
  let agingBlocks ← orError (checkedU32 (modulus * anchorBucketMinAge network timingPolicy))
    "Migration proof readiness height overflow"
  let height ← Store.checkedAdd containingBoundary agingBlocks
    "Migration proof readiness height overflow"
  Store.checkedAdd height confirmationLag "Migration proof readiness height overflow"

def nextAnchorRetryHeightAfter (trusted fullyScannedHeight : ℕ) : Except String ℕ := do
  let modulus := anchorBucketModulus network timingPolicy
  let confirmationLag := trusted - 1
  let boundaryReference :=
    if 0 < anchorBucketMinAge network timingPolicy then fullyScannedHeight - confirmationLag
    else fullyScannedHeight
  let distance := modulus - boundaryReference % modulus
  let boundary ← Store.checkedAdd boundaryReference distance
    "Migration proof retry height overflow"
  Store.checkedAdd boundary confirmationLag "Migration proof retry height overflow"

end Policy

/-- The newest height whose outputs are trusted when the chain is scanned to a height. -/
def trustedAnchorHeight (trusted scanned : ℕ) : ℕ := scanned - (trusted - 1)

/-- The newest boundary at or before a height, which is none when it is 0. -/
def newestBoundary (network : WalletNetwork) (timingPolicy : MigrationTimingPolicy)
    (height : ℕ) : ℕ :=
  height - height % anchorBucketModulus network timingPolicy

/-- What a candidate is not below: the note and the block after the activation. -/
def candidateLowerBound (mined activation : ℕ) : ℕ := max mined (saturatingAdd activation 1)

variable {network : WalletNetwork} {timingPolicy : MigrationTimingPolicy}
  {trusted scanned mined activation height boundary retry ready : ℕ}

theorem anchorBucketModulus_pos (network : WalletNetwork) (timingPolicy : MigrationTimingPolicy) :
    0 < anchorBucketModulus network timingPolicy :=
  (anchorBucketModulus_bounds network timingPolicy).1

/-! ## Boundaries -/

section Boundaries

variable (network timingPolicy height)

theorem newestBoundary_le : newestBoundary network timingPolicy height ≤ height := Nat.sub_le ..

theorem dvd_newestBoundary :
    anchorBucketModulus network timingPolicy ∣ newestBoundary network timingPolicy height :=
  Nat.dvd_sub_mod height

theorem lt_newestBoundary_add :
    height < newestBoundary network timingPolicy height +
      anchorBucketModulus network timingPolicy := by
  have := Nat.mod_lt height (anchorBucketModulus_pos network timingPolicy)
  unfold newestBoundary
  omega

end Boundaries

/-- The next multiple is a whole bucket away. -/
theorem add_modulus_le {a b : ℕ} (ha : anchorBucketModulus network timingPolicy ∣ a)
    (hb : anchorBucketModulus network timingPolicy ∣ b) (h : a < b) :
    a + anchorBucketModulus network timingPolicy ≤ b := by
  have := Nat.le_of_dvd (Nat.sub_pos_of_lt h) (Nat.dvd_sub hb ha)
  omega

theorem newestBoundary_eq (hdvd : anchorBucketModulus network timingPolicy ∣ boundary)
    (hle : boundary ≤ height) (hlt : height < boundary + anchorBucketModulus network timingPolicy) :
    newestBoundary network timingPolicy height = boundary := by
  have hnewest := dvd_newestBoundary network timingPolicy height
  have hnext := lt_newestBoundary_add network timingPolicy height
  have hself := newestBoundary_le network timingPolicy height
  rcases Nat.lt_trichotomy (newestBoundary network timingPolicy height) boundary with h | h | h
  · have := add_modulus_le hnewest hdvd h
    omega
  · exact h
  · have := add_modulus_le hdvd hnewest h
    omega

/-! ## The candidates of a height -/

/-- A candidate is not before the first block, so a height without a boundary needs no case. -/
theorem candidateBoundaries_eq :
    zip318AnchorCandidateBoundariesWithPolicy network timingPolicy height mined activation =
      anchorCandidates network timingPolicy (newestBoundary network timingPolicy height)
        (candidateLowerBound mined activation) (anchorAges network timingPolicy) := by
  unfold zip318AnchorCandidateBoundariesWithPolicy zip318AnchorBoundaryAtOrBeforeWithPolicy
  by_cases hpos : 0 < newestBoundary network timingPolicy height
  · rw [newestBoundary] at hpos
    rw [if_pos hpos]
    rfl
  · have hzero : newestBoundary network timingPolicy height = 0 := by omega
    rw [newestBoundary] at hpos
    rw [if_neg hpos, hzero]
    symm
    rw [List.eq_nil_iff_forall_not_mem]
    intro boundary hmem
    obtain ⟨hlower, age, -, heq⟩ := (mem_anchorCandidates anchorAges_le anchorAges_sorted).1 hmem
    unfold candidateLowerBound saturatingAdd at hlower
    omega

theorem candidateBoundaries_congr {later : ℕ}
    (h : newestBoundary network timingPolicy later = newestBoundary network timingPolicy height) :
    zip318AnchorCandidateBoundariesWithPolicy network timingPolicy later mined activation =
      zip318AnchorCandidateBoundariesWithPolicy network timingPolicy height mined activation := by
  rw [candidateBoundaries_eq, candidateBoundaries_eq, h]

/-- There is a candidate when the youngest age allowed reaches the lower bound. -/
theorem candidateBoundaries_eq_nil_iff :
    zip318AnchorCandidateBoundariesWithPolicy network timingPolicy height mined activation = [] ↔
      newestBoundary network timingPolicy height < candidateLowerBound mined activation +
        anchorBucketMinAge network timingPolicy * anchorBucketModulus network timingPolicy := by
  rw [candidateBoundaries_eq, List.eq_nil_iff_forall_not_mem]
  simp only [mem_anchorCandidates anchorAges_le anchorAges_sorted]
  constructor
  · intro h
    by_contra hreached
    refine h (newestBoundary network timingPolicy height -
      anchorBucketMinAge network timingPolicy * anchorBucketModulus network timingPolicy)
      ⟨by omega, anchorBucketMinAge network timingPolicy, mem_anchorAges.2 ⟨le_rfl, ?_⟩, by omega⟩
    exact (anchorBucketMinAge_le network timingPolicy).trans (by decide)
  · rintro h boundary ⟨hlower, age, hage, heq⟩
    have := Nat.mul_le_mul_right (anchorBucketModulus network timingPolicy)
      (mem_anchorAges.1 hage).1
    omega

/-! ## Readiness -/

theorem containingBoundary_spec (h : anchorBoundaryContainingNoteWithPolicy network timingPolicy
    mined = .ok boundary) :
    anchorBucketModulus network timingPolicy ∣ boundary ∧ mined ≤ boundary ∧
      boundary < mined + anchorBucketModulus network timingPolicy := by
  have hpos := anchorBucketModulus_pos network timingPolicy
  have hremainder := Nat.mod_lt mined hpos
  unfold anchorBoundaryContainingNoteWithPolicy at h
  dsimp only at h
  split at h
  · rename_i hzero
    obtain rfl := Except.ok.inj h
    exact ⟨Nat.dvd_of_mod_eq_zero hzero, le_rfl, by omega⟩
  · obtain ⟨-, rfl⟩ := Store.checkedAdd_eq_ok.1 h
    refine ⟨?_, by omega, by omega⟩
    have hsum : mined + (anchorBucketModulus network timingPolicy -
        mined % anchorBucketModulus network timingPolicy) =
        newestBoundary network timingPolicy mined + anchorBucketModulus network timingPolicy := by
      unfold newestBoundary
      have := Nat.mod_le mined (anchorBucketModulus network timingPolicy)
      omega
    rw [hsum]
    exact Nat.dvd_add (dvd_newestBoundary ..) dvd_rfl

theorem proofReadyHeight_spec
    (h : proofReadyHeightForNoteMinedHeight network timingPolicy trusted mined = .ok ready) :
    ∃ containing,
      anchorBoundaryContainingNoteWithPolicy network timingPolicy mined = .ok containing ∧
      ready = containing + anchorBucketMinAge network timingPolicy *
        anchorBucketModulus network timingPolicy + (trusted - 1) := by
  unfold proofReadyHeightForNoteMinedHeight at h
  simp only [bind_eq_ok, orError_eq_ok, Store.checkedAdd_eq_ok] at h
  obtain ⟨containing, hcontaining, aging, haging, height, ⟨-, rfl⟩, -, rfl⟩ := h
  obtain ⟨-, rfl⟩ : _ ∧ anchorBucketModulus network timingPolicy *
      anchorBucketMinAge network timingPolicy = aging := by
    simpa [checkedU32] using haging
  exact ⟨containing, hcontaining, by rw [Nat.mul_comm]⟩

/-- A note whose boundary is after the activation has its first candidate exactly when it is
ready. -/
theorem candidates_at_ready {containing : ℕ}
    (hcontaining : anchorBoundaryContainingNoteWithPolicy network timingPolicy mined =
      .ok containing) (hactivation : activation < containing)
    (hready : proofReadyHeightForNoteMinedHeight network timingPolicy trusted mined = .ok ready) :
    (∀ scanned < ready, zip318AnchorCandidateBoundariesWithPolicy network timingPolicy
      (trustedAnchorHeight trusted scanned) mined activation = []) ∧
    zip318AnchorCandidateBoundariesWithPolicy network timingPolicy
      (trustedAnchorHeight trusted ready) mined activation ≠ [] := by
  obtain ⟨containing', hcontaining', rfl⟩ := proofReadyHeight_spec hready
  obtain rfl := Except.ok.inj (hcontaining.symm.trans hcontaining')
  obtain ⟨hdvd, hle, hlt⟩ := containingBoundary_spec hcontaining
  have hlower : candidateLowerBound mined activation ≤ containing ∧
      containing < candidateLowerBound mined activation +
        anchorBucketModulus network timingPolicy := by
    unfold candidateLowerBound saturatingAdd
    omega
  have haged : anchorBucketModulus network timingPolicy ∣ containing +
      anchorBucketMinAge network timingPolicy * anchorBucketModulus network timingPolicy :=
    Nat.dvd_add hdvd (Nat.dvd_mul_left ..)
  constructor
  · intro scanned hscanned
    have hnewest : newestBoundary network timingPolicy (trustedAnchorHeight trusted scanned) <
        containing + anchorBucketMinAge network timingPolicy *
          anchorBucketModulus network timingPolicy := by
      refine (newestBoundary_le ..).trans_lt ?_
      unfold trustedAnchorHeight
      omega
    -- the newest boundary that is trusted is a whole bucket short of the aged one
    have := add_modulus_le (dvd_newestBoundary ..) haged hnewest
    rw [candidateBoundaries_eq_nil_iff]
    omega
  · have hnewest : newestBoundary network timingPolicy (trustedAnchorHeight trusted
        (containing + anchorBucketMinAge network timingPolicy *
          anchorBucketModulus network timingPolicy + (trusted - 1))) =
        containing + anchorBucketMinAge network timingPolicy *
          anchorBucketModulus network timingPolicy := by
      rw [trustedAnchorHeight, Nat.add_sub_cancel]
      exact newestBoundary_eq haged le_rfl (Nat.lt_add_of_pos_right (anchorBucketModulus_pos ..))
    rw [Ne, candidateBoundaries_eq_nil_iff, hnewest]
    omega

/-! ## Retries -/

/-- The boundary from which a retry counts one bucket. -/
def retryBoundary (network : WalletNetwork) (timingPolicy : MigrationTimingPolicy)
    (trusted scanned : ℕ) : ℕ :=
  if 0 < anchorBucketMinAge network timingPolicy then
    newestBoundary network timingPolicy (trustedAnchorHeight trusted scanned)
  else newestBoundary network timingPolicy scanned

theorem retryHeight_eq_ok :
    nextAnchorRetryHeightAfter network timingPolicy trusted scanned = .ok retry ↔
      retryBoundary network timingPolicy trusted scanned +
        anchorBucketModulus network timingPolicy + (trusted - 1) < 2 ^ 32 ∧
      retryBoundary network timingPolicy trusted scanned +
        anchorBucketModulus network timingPolicy + (trusted - 1) = retry := by
  have hpos := anchorBucketModulus_pos network timingPolicy
  have hnext (reference : ℕ) : reference + (anchorBucketModulus network timingPolicy -
      reference % anchorBucketModulus network timingPolicy) =
      newestBoundary network timingPolicy reference +
        anchorBucketModulus network timingPolicy := by
    have := Nat.mod_lt reference hpos
    have := Nat.mod_le reference (anchorBucketModulus network timingPolicy)
    unfold newestBoundary
    omega
  unfold nextAnchorRetryHeightAfter
  simp only [bind_eq_ok, Store.checkedAdd_eq_ok, hnext]
  unfold retryBoundary trustedAnchorHeight
  split <;> constructor
  · rintro ⟨_, ⟨-, rfl⟩, h⟩
    exact h
  · rintro ⟨hlt, h⟩
    exact ⟨_, ⟨by omega, rfl⟩, hlt, h⟩
  · rintro ⟨_, ⟨-, rfl⟩, h⟩
    exact h
  · rintro ⟨hlt, h⟩
    exact ⟨_, ⟨by omega, rfl⟩, hlt, h⟩

/-- A retry is after the scanned height, and no height before it has other candidates. -/
def RetryWaits (network : WalletNetwork) (timingPolicy : MigrationTimingPolicy)
    (trusted mined activation scanned : ℕ) : Prop :=
  ∀ retry, nextAnchorRetryHeightAfter network timingPolicy trusted scanned = .ok retry →
    scanned < retry ∧ ∀ later, scanned < later → later < retry →
      zip318AnchorCandidateBoundariesWithPolicy network timingPolicy
        (trustedAnchorHeight trusted later) mined activation =
      zip318AnchorCandidateBoundariesWithPolicy network timingPolicy
        (trustedAnchorHeight trusted scanned) mined activation

/-- A note whose boundary is after the activation has no candidate before it is ready, and one at
that height. -/
def ReadyWithCandidate (network : WalletNetwork) (timingPolicy : MigrationTimingPolicy)
    (trusted mined activation : ℕ) : Prop :=
  ∀ containing ready,
    anchorBoundaryContainingNoteWithPolicy network timingPolicy mined = .ok containing →
    activation < containing →
    proofReadyHeightForNoteMinedHeight network timingPolicy trusted mined = .ok ready →
    (∀ scanned < ready, zip318AnchorCandidateBoundariesWithPolicy network timingPolicy
      (trustedAnchorHeight trusted scanned) mined activation = []) ∧
    zip318AnchorCandidateBoundariesWithPolicy network timingPolicy
      (trustedAnchorHeight trusted ready) mined activation ≠ []

theorem lt_retry
    (hretry : nextAnchorRetryHeightAfter network timingPolicy trusted scanned = .ok retry) :
    scanned < retry := by
  obtain ⟨-, rfl⟩ := retryHeight_eq_ok.1 hretry
  unfold retryBoundary
  split
  · have := lt_newestBoundary_add network timingPolicy (trustedAnchorHeight trusted scanned)
    rw [trustedAnchorHeight] at this ⊢
    omega
  · have := lt_newestBoundary_add network timingPolicy scanned
    omega

/-- A retry that counts from the newest boundary that is trusted waits. -/
theorem retryWaits_of_trusted (hboundary : retryBoundary network timingPolicy trusted scanned =
    newestBoundary network timingPolicy (trustedAnchorHeight trusted scanned)) :
    RetryWaits network timingPolicy trusted mined activation scanned := by
  intro retry hretry
  refine ⟨lt_retry hretry, fun later hafter hbefore => candidateBoundaries_congr ?_⟩
  obtain ⟨-, rfl⟩ := retryHeight_eq_ok.1 hretry
  rw [hboundary] at hbefore
  have hpos := anchorBucketModulus_pos network timingPolicy
  have hscanned := newestBoundary_le network timingPolicy (trustedAnchorHeight trusted scanned)
  have hmono : trustedAnchorHeight trusted scanned ≤ trustedAnchorHeight trusted later :=
    Nat.sub_le_sub_right hafter.le _
  refine newestBoundary_eq (dvd_newestBoundary ..) (hscanned.trans hmono) ?_
  unfold trustedAnchorHeight at hbefore ⊢
  omega

/-- Where the newest boundary can be used, a boundary that is scanned and not yet trusted is a
candidate before the retry. -/
theorem retryWaits_newest_iff (hage : anchorBucketMinAge network timingPolicy = 0) :
    RetryWaits network timingPolicy trusted mined activation scanned ↔
      2 ^ 32 ≤ newestBoundary network timingPolicy scanned +
        anchorBucketModulus network timingPolicy + (trusted - 1) ∨
      newestBoundary network timingPolicy scanned ≤ trustedAnchorHeight trusted scanned ∨
      newestBoundary network timingPolicy scanned < candidateLowerBound mined activation := by
  have hpos := anchorBucketModulus_pos network timingPolicy
  have hscanned := lt_newestBoundary_add network timingPolicy scanned
  have hboundary : retryBoundary network timingPolicy trusted scanned =
      newestBoundary network timingPolicy scanned := by
    rw [retryBoundary, if_neg (by omega)]
  constructor
  · intro hwaits
    by_contra! hmissed
    obtain ⟨hfits, huntrusted, hlower⟩ := hmissed
    obtain ⟨-, hconst⟩ := hwaits _ (retryHeight_eq_ok.2 ⟨by rwa [hboundary], rfl⟩)
    -- the height at which the newest scanned boundary is trusted
    have hsame := hconst (newestBoundary network timingPolicy scanned + (trusted - 1))
      (by unfold trustedAnchorHeight at huntrusted; omega) (by rw [hboundary]; omega)
    have hmem : newestBoundary network timingPolicy scanned ∈
        zip318AnchorCandidateBoundariesWithPolicy network timingPolicy (trustedAnchorHeight trusted
          (newestBoundary network timingPolicy scanned + (trusted - 1))) mined activation := by
      rw [candidateBoundaries_eq, mem_anchorCandidates anchorAges_le anchorAges_sorted,
        trustedAnchorHeight, Nat.add_sub_cancel,
        newestBoundary_eq (dvd_newestBoundary ..) le_rfl (Nat.lt_add_of_pos_right hpos)]
      exact ⟨hlower, 0, mem_anchorAges.2 ⟨hage.le, Nat.zero_le _⟩, by omega⟩
    rw [hsame, candidateBoundaries_eq, mem_anchorCandidates anchorAges_le anchorAges_sorted] at hmem
    obtain ⟨-, age, -, heq⟩ := hmem
    have := newestBoundary_le network timingPolicy (trustedAnchorHeight trusted scanned)
    omega
  · rintro (hoverflow | htrusted | hlower)
    · intro retry hretry
      have := (retryHeight_eq_ok.1 hretry).1
      omega
    · refine retryWaits_of_trusted (hboundary.trans ?_)
      refine (newestBoundary_eq (dvd_newestBoundary ..) htrusted ?_).symm
      unfold trustedAnchorHeight
      omega
    · intro retry hretry
      refine ⟨lt_retry hretry, fun later hafter hbefore => ?_⟩
      obtain ⟨-, rfl⟩ := retryHeight_eq_ok.1 hretry
      have hnil (height : ℕ) (hheight : height < newestBoundary network timingPolicy scanned +
          anchorBucketModulus network timingPolicy) :
          zip318AnchorCandidateBoundariesWithPolicy network timingPolicy height mined activation =
            [] := by
        have := add_modulus_le (dvd_newestBoundary ..) (Nat.dvd_add (dvd_newestBoundary ..) dvd_rfl)
          ((newestBoundary_le ..).trans_lt hheight)
        rw [candidateBoundaries_eq_nil_iff]
        omega
      rw [hnil _ (by unfold trustedAnchorHeight; omega),
        hnil _ (by unfold trustedAnchorHeight; omega)]

/-- The first candidate of a note is that of its readiness, and a retry passes no candidate unless
the policy takes the newest boundary and that boundary is scanned, usable and not yet trusted. -/
theorem retry_waits_iff (network : WalletNetwork) (timingPolicy : MigrationTimingPolicy)
    (trusted mined activation scanned : ℕ) :
    RetryWaits network timingPolicy trusted mined activation scanned ∧
      ReadyWithCandidate network timingPolicy trusted mined activation ↔
    0 < anchorBucketMinAge network timingPolicy ∨
      2 ^ 32 ≤ newestBoundary network timingPolicy scanned +
        anchorBucketModulus network timingPolicy + (trusted - 1) ∨
      newestBoundary network timingPolicy scanned ≤ trustedAnchorHeight trusted scanned ∨
      newestBoundary network timingPolicy scanned < candidateLowerBound mined activation := by
  have hready : ReadyWithCandidate network timingPolicy trusted mined activation :=
    fun _ _ hcontaining hactivation hready => candidates_at_ready hcontaining hactivation hready
  rw [and_iff_left hready]
  rcases Nat.eq_zero_or_pos (anchorBucketMinAge network timingPolicy) with hage | hage
  · rw [retryWaits_newest_iff hage]
    omega
  · refine iff_of_true (retryWaits_of_trusted ?_) (.inl hage)
    rw [retryBoundary, if_pos hage]

/-- Block 144 is scanned at height 145 and trusted at height 146, but the retry is at height 290. -/
theorem retry_passes_candidate :
    nextAnchorRetryHeightAfter .main .standard90MinutesLatestAnchor 3 145 = .ok 290 ∧
      zip318AnchorCandidateBoundariesWithPolicy .main .standard90MinutesLatestAnchor
        (trustedAnchorHeight 3 145) 100 0 = [] ∧
      zip318AnchorCandidateBoundariesWithPolicy .main .standard90MinutesLatestAnchor
        (trustedAnchorHeight 3 146) 100 0 = [144] ∧
      ¬ RetryWaits .main .standard90MinutesLatestAnchor 3 100 0 145 := by
  refine ⟨rfl, by decide, by decide, fun hwaits => ?_⟩
  have hsame := (hwaits 290 rfl).2 146 (by decide) (by decide)
  exact absurd hsame (by decide)

end VizorWallet.Migration
