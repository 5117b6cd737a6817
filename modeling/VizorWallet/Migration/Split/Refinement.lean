import VizorWallet.Library.Outcome
import VizorWallet.Library.UnstableSort
import VizorWallet.Migration.Denomination
import Mathlib.Data.List.Destutter
import Mathlib.Data.List.Lex
import Mathlib.Algebra.GroupWithZero.Nat

/-!
# Denomination refinement

A planned denomination may be split into smaller ones, at random and recursively.  Each selected
refinement is a tree; its candidates are the prunings of the tree, the most split one first and
the unsplit root last.

## Main definitions

* `DenominationRefinement` — a selected refinement with its children.
* `refineDenomination` — the random selection.
* `refinementCandidates` — every valid pruning.
-/

namespace VizorWallet.Migration

def tenThousandZecZatoshi : ℕ := zip318MaxMigrationDenominationZatoshi

def fiveThousandZecZatoshi : ℕ := tenThousandZecZatoshi / 2

def twoThousandZecZatoshi : ℕ := tenThousandZecZatoshi / 5

def oneThousandZecZatoshi : ℕ := tenThousandZecZatoshi / 10

/-- The percentage of each bucket that is split further. -/
structure DenominationRefinementPolicy where
  tenThousandSplitPercent : ℕ
  fiveThousandSplitPercent : ℕ
  twoThousandSplitPercent : ℕ

def aggressiveRefinementPolicy : DenominationRefinementPolicy := ⟨80, 55, 35⟩

/-- The gate and the children of a bucket. -/
def DenominationRefinementPolicy.splitRule (policy : DenominationRefinementPolicy)
    (denomination : ℕ) : Option (ℕ × List ℕ) :=
  if denomination = tenThousandZecZatoshi then
    some (policy.tenThousandSplitPercent, [fiveThousandZecZatoshi, fiveThousandZecZatoshi])
  else if denomination = fiveThousandZecZatoshi then
    some (policy.fiveThousandSplitPercent,
      [twoThousandZecZatoshi, twoThousandZecZatoshi, oneThousandZecZatoshi])
  else if denomination = twoThousandZecZatoshi then
    some (policy.twoThousandSplitPercent, [oneThousandZecZatoshi, oneThousandZecZatoshi])
  else none

/-- A selected refinement and every recursively selected child split. -/
inductive DenominationRefinement
  | node (value : ℕ) (children : List DenominationRefinement)

def DenominationRefinement.value : DenominationRefinement → ℕ
  | node value _ => value

def DenominationRefinement.leaf (value : ℕ) : DenominationRefinement := node value []

theorem splitRule_lt {policy : DenominationRefinementPolicy} {denomination percent child : ℕ}
    {children : List ℕ} (h : policy.splitRule denomination = some (percent, children))
    (hmem : child ∈ children) : child < denomination := by
  unfold DenominationRefinementPolicy.splitRule at h
  split_ifs at h with h10 h5 h2 <;>
    · obtain ⟨-, rfl⟩ := Prod.mk.inj (Option.some.inj h)
      subst denomination
      revert child
      decide

/-- Draw a refinement of a denomination; `nextU32` is the random number generator. -/
def refineDenomination {σ : Type*} (policy : DenominationRefinementPolicy) (nextU32 : σ → ℕ × σ)
    (denomination : ℕ) (rng : σ) : DenominationRefinement × σ :=
  match _hrule : policy.splitRule denomination with
  | none => (.leaf denomination, rng)
  | some (splitPercent, children) =>
    if splitPercent = 0 then (.leaf denomination, rng)
    else
      let (roll, rng) := nextU32 rng
      if splitPercent ≤ roll % 100 then (.leaf denomination, rng)
      else
        let (refined, rng) := children.attach.foldl
          (fun (refined, rng) child =>
            let (refinement, rng) := refineDenomination policy nextU32 child.1 rng
            (refined ++ [refinement], rng))
          ([], rng)
        (.node denomination refined, rng)
termination_by denomination
decreasing_by
  obtain ⟨child, hmem⟩ := child
  exact splitRule_lt _hrule hmem

/-! ## Candidates -/

/-- Sum with overflow check. -/
def checkedSum (values : List ℕ) (context : String) : Except String ℕ :=
  values.foldlM (fun total value => orError (checkedAdd total value) context) 0

/-- More parts first, then in lexicographic order. -/
def candidateBefore (left right : List ℕ) : Prop :=
  right.length < left.length ∨ left.length = right.length ∧ left ≤ right

instance : DecidableRel candidateBefore := fun _ _ =>
  inferInstanceAs (Decidable (_ ∨ _))

/-- Sort each candidate and the list of them, and drop repetitions. -/
def orderCandidates (candidates : List (List ℕ)) : List (List ℕ) :=
  ((candidates.map sortDescending).insertionSort candidateBefore).destutter (· ≠ ·)

mutual

/-- Every valid pruning of a refinement tree, the unsplit root among them. -/
def refinementCandidates : DenominationRefinement → Except String (List (List ℕ))
  | .node value children => do
    ensure (isZip318CanonicalDenomination value)
      "Denomination refinement produced a noncanonical value"
    if children.isEmpty then return [[value]]
    let total ← checkedSum (children.map DenominationRefinement.value)
      "Denomination refinement total overflow"
    ensure (total = value) "Denomination refinement must preserve the selected value"
    let expanded ← expandChildren children [[]]
    return orderCandidates (expanded ++ [[value]])

/-- Combine the candidates of the children, from left to right. -/
def expandChildren : List DenominationRefinement → List (List ℕ) →
    Except String (List (List ℕ))
  | [], expanded => return expanded
  | child :: rest, expanded => do
    let childCandidates ← refinementCandidates child
    ensure (expanded.length * childCandidates.length < u64Size)
      "Denomination refinement candidate count overflow"
    expandChildren rest (expanded.flatMap fun before => childCandidates.map (before ++ ·))

end

/-! ## What the candidates keep -/

/-- A checked sum succeeds exactly when the sum is in range. -/
theorem checkedSum_eq_ok {values : List ℕ} {context : String} {total : ℕ} :
    checkedSum values context = .ok total ↔ total = values.sum ∧ values.sum < u64Size := by
  have hfold : ∀ (l : List ℕ) (start : ℕ), start < u64Size →
      (l.foldlM (fun total value => orError (checkedAdd total value) context) start =
        .ok total ↔ total = start + l.sum ∧ start + l.sum < u64Size) := by
    intro l
    induction l with
    | nil =>
      intro start hstart
      simp only [List.foldlM_nil, pure_eq_ok, List.sum_nil]
      omega
    | cons v rest ih =>
      intro start hstart
      simp only [List.foldlM_cons, bind_eq_ok, orError_eq_ok, checkedAdd_eq_some, List.sum_cons]
      constructor
      · rintro ⟨_, ⟨hlt, rfl⟩, hrest⟩
        rw [ih _ hlt] at hrest
        omega
      · rintro ⟨htotal, hlt⟩
        exact ⟨_, ⟨by omega, rfl⟩, (ih _ (by omega)).2 (by omega)⟩
  simpa [checkedSum] using hfold values 0 (by decide)

/-- Dropping consecutive repetitions keeps every element. -/
theorem mem_destutter_ne {α : Type*} [DecidableEq α] {l : List α} {a : α} :
    a ∈ l.destutter (· ≠ ·) ↔ a ∈ l := by
  have hfrom : ∀ (l : List α) (b : α), a ∈ l.destutter' (· ≠ ·) b ↔ a = b ∨ a ∈ l := by
    intro l
    induction l with
    | nil => simp
    | cons c rest ih =>
      intro b
      rw [List.destutter'_cons]
      split_ifs with hne
      · simp [ih]
      · obtain rfl := not_not.1 hne
        simp [ih]
  cases l with
  | nil => simp
  | cons b rest => simp [List.destutter_cons', hfrom]

theorem mem_orderCandidates {candidates : List (List ℕ)} {candidate : List ℕ} :
    candidate ∈ orderCandidates candidates ↔
      ∃ original ∈ candidates, sortDescending original = candidate := by
  rw [orderCandidates, mem_destutter_ne, List.mem_insertionSort, List.mem_map]

/-- Each candidate is made of canonical denominations that add up to the value it splits. -/
structure SplitsInto (value : ℕ) (candidate : List ℕ) : Prop where
  sum_eq : candidate.sum = value
  canonical : ∀ d ∈ candidate, isZip318CanonicalDenomination d

theorem SplitsInto.sorted {value : ℕ} {candidate : List ℕ} (h : SplitsInto value candidate) :
    SplitsInto value (sortDescending candidate) :=
  ⟨by rw [sum_sortDescending, h.sum_eq], fun d hd => h.canonical d (by simpa using hd)⟩

theorem splitsInto_root {value : ℕ} (h : isZip318CanonicalDenomination value) :
    SplitsInto value [value] :=
  ⟨by simp, by simpa using h⟩

theorem SplitsInto.append {a b : ℕ} {left right : List ℕ} (hl : SplitsInto a left)
    (hr : SplitsInto b right) : SplitsInto (a + b) (left ++ right) :=
  ⟨by rw [List.sum_append, hl.sum_eq, hr.sum_eq], fun d hd => by
    obtain hd | hd := List.mem_append.1 hd
    · exact hl.canonical d hd
    · exact hr.canonical d hd⟩

/-- Ordered candidates split what the candidates split, the root among them. -/
theorem orderCandidates_spec {value : ℕ} {expanded : List (List ℕ)}
    (hexpanded : ∀ candidate ∈ expanded, SplitsInto value candidate)
    (hroot : SplitsInto value [value]) :
    [value] ∈ orderCandidates (expanded ++ [[value]]) ∧
      ∀ candidate ∈ orderCandidates (expanded ++ [[value]]), SplitsInto value candidate := by
  constructor
  · exact mem_orderCandidates.2 ⟨[value], by simp, rfl⟩
  · intro candidate hmem
    obtain ⟨original, horiginal, rfl⟩ := mem_orderCandidates.1 hmem
    obtain hmem | hmem := List.mem_append.1 horiginal
    · exact (hexpanded original hmem).sorted
    · rw [List.mem_singleton.1 hmem]
      exact hroot.sorted

mutual

/-- The candidates of a refinement split its value, and the unsplit root is one of them. -/
theorem refinementCandidates_spec : (refinement : DenominationRefinement) →
    ∀ candidates, refinementCandidates refinement = .ok candidates →
      [refinement.value] ∈ candidates ∧
        ∀ candidate ∈ candidates, SplitsInto refinement.value candidate
  | .node value children => by
    intro candidates h
    simp only [refinementCandidates, bind_eq_ok, ensure_eq_ok] at h
    obtain ⟨-, hcanonical, h⟩ := h
    have hroot := splitsInto_root hcanonical
    split_ifs at h with hleaf
    · obtain rfl := pure_eq_ok.1 h
      exact ⟨by simp [DenominationRefinement.value],
        by simpa [DenominationRefinement.value] using hroot⟩
    · simp only [bind_eq_ok, ensure_eq_ok, pure_eq_ok, checkedSum_eq_ok] at h
      obtain ⟨total, ⟨htotal, -⟩, -, hvalue, expanded, hexpanded, rfl⟩ := h
      have hstart : ∀ candidate ∈ [([] : List ℕ)], SplitsInto 0 candidate := by
        simp only [List.mem_singleton, forall_eq]
        exact ⟨rfl, by simp⟩
      have hchildren := expandChildren_spec children [[]] expanded hexpanded 0 hstart
      rw [Nat.zero_add, ← htotal, hvalue] at hchildren
      exact orderCandidates_spec hchildren hroot

theorem expandChildren_spec : (children : List DenominationRefinement) →
    ∀ expanded final, expandChildren children expanded = .ok final →
      ∀ total, (∀ candidate ∈ expanded, SplitsInto total candidate) →
        ∀ candidate ∈ final,
          SplitsInto (total + (children.map DenominationRefinement.value).sum) candidate
  | [], expanded, final, h, total, hsplits => by
    obtain rfl := pure_eq_ok.1 h
    simpa using hsplits
  | child :: rest, expanded, final, h, total, hsplits => by
    simp only [expandChildren, bind_eq_ok, ensure_eq_ok] at h
    obtain ⟨childCandidates, hchild, -, -, h⟩ := h
    have hspec := (refinementCandidates_spec child childCandidates hchild).2
    have hrest := expandChildren_spec rest _ final h (total + child.value) ?_
    · simpa [Nat.add_assoc] using hrest
    · intro candidate hmem
      obtain ⟨before, hbefore, hmem⟩ := List.mem_flatMap.1 hmem
      obtain ⟨after, hafter, rfl⟩ := List.mem_map.1 hmem
      exact (hsplits before hbefore).append (hspec after hafter)

end

end VizorWallet.Migration
