import VizorWallet.Library.CutBatches

/-!
# Bisection and greedy cuts

The greatest count that a test accepts is found by bisection. Cutting a list after the longest piece
that fits, again and again, takes the fewest pieces.

## Main definitions

* `bisect` — the search; a probe may fail, and the fuel may run out.
* `Greedy` — sizes of consecutive pieces, each as long as it fits.

## Main results

* `bisect_spec` — the search ends with the greatest count.
* `Greedy.length_le` — no cut into fitting pieces has fewer of them.
-/

namespace VizorWallet

variable {ε σ α β : Type*}

/-! ## Bisection -/

/-- Search between two counts for the greatest that the probe accepts, keeping the best so far.
`none` when the fuel is used up. -/
def bisect (probe : ℕ → Except ε (Option σ)) :
    ℕ → ℕ → ℕ → Option (ℕ × σ) → Option (Except ε (Option (ℕ × σ)))
  | 0, low, high, best => if low ≤ high then none else some (.ok best)
  | fuel + 1, low, high, best =>
    if low ≤ high then
      let candidate := low + (high - low) / 2
      match probe candidate with
      | .error e => some (.error e)
      | .ok (some found) => bisect probe fuel (candidate + 1) high (some (candidate, found))
      | .ok none => bisect probe fuel low (candidate - 1) best
    else some (.ok best)

/-- What bisection returns: the greatest count that is accepted, if one is. -/
def IsGreatest (probe : ℕ → Except ε (Option σ)) (limit : ℕ) (best : Option (ℕ × σ)) : Prop :=
  match best with
  | none => ∀ count found, 0 < count → count ≤ limit → probe count ≠ .ok (some found)
  | some (count, found) => 0 < count ∧ count ≤ limit ∧ probe count = .ok (some found) ∧
      ∀ later found, count < later → later ≤ limit → probe later ≠ .ok (some found)

/-- What is rejected at a count is rejected at every greater one. -/
def Rejects (probe : ℕ → Except ε (Option σ)) : Prop :=
  ∀ count later found, 0 < count → count ≤ later → probe count = .ok none →
    probe later ≠ .ok (some found)

variable {probe : ℕ → Except ε (Option σ)} {limit : ℕ}

/-- Counts that are not accepted do not change what is greatest. -/
theorem IsGreatest.extend {high : ℕ} {best : Option (ℕ × σ)} (h : IsGreatest probe high best)
    (hle : high ≤ limit)
    (habove : ∀ count found, high < count → count ≤ limit → probe count ≠ .ok (some found)) :
    IsGreatest probe limit best := by
  cases best with
  | none =>
    intro count found hpos hcount
    rcases Nat.lt_or_ge high count with hlt | hge
    · exact habove count found hlt hcount
    · exact h count found hpos hge
  | some best =>
    obtain ⟨hpos, hbest, hfound, hlater⟩ := h
    refine ⟨hpos, Nat.le_trans hbest hle, hfound, ?_⟩
    intro later found hlt hlater'
    rcases Nat.lt_or_ge high later with hhigh | hge
    · exact habove later found hhigh hlater'
    · exact hlater later found hlt hge

theorem bisect_invariant (hrejects : Rejects probe)
    {fuel low high : ℕ} {best : Option (ℕ × σ)} (hlow : 0 < low) (horder : low ≤ high + 1)
    (hhigh : high ≤ limit) (hfuel : high + 1 ≤ low + fuel)
    (hbest : IsGreatest probe (low - 1) best)
    (habove : ∀ count found, high < count → count ≤ limit → probe count ≠ .ok (some found)) :
    (∃ count e, 0 < count ∧ count ≤ limit ∧ probe count = .error e ∧
      bisect probe fuel low high best = some (.error e)) ∨
    ∃ best', bisect probe fuel low high best = some (.ok best') ∧
      IsGreatest probe limit best' := by
  have hend (hdone : high + 1 ≤ low) : IsGreatest probe limit best := by
    obtain rfl : low = high + 1 := by omega
    exact hbest.extend hhigh habove
  induction fuel generalizing low high best with
  | zero => exact .inr ⟨best, if_neg (by omega), hend (by omega)⟩
  | succ fuel ih =>
    rw [bisect]
    split
    · have hcandidate : low ≤ low + (high - low) / 2 ∧ low + (high - low) / 2 ≤ high := by omega
      generalize low + (high - low) / 2 = candidate at hcandidate ⊢
      dsimp only
      cases hprobe : probe candidate with
      | error e => exact .inl ⟨candidate, e, by omega, by omega, hprobe, rfl⟩
      | ok answer =>
        cases answer with
        | none =>
          have habove' : ∀ count found, candidate - 1 < count → count ≤ limit →
              probe count ≠ .ok (some found) := by
            intro count found hlt _
            exact hrejects candidate count found (by omega) (by omega) hprobe
          refine ih hlow (by omega) (by omega) (by omega) hbest habove' fun hdone => ?_
          exact hbest.extend (by omega) fun count found hcount hle =>
            habove' count found (by omega) hle
        | some found =>
          have hbest' : IsGreatest probe (candidate + 1 - 1) (some (candidate, found)) := by
            refine ⟨by omega, Nat.le_refl _, hprobe, ?_⟩
            intro later found hlt hle
            omega
          refine ih (by omega) (by omega) hhigh (by omega) hbest' habove fun hdone => ?_
          exact hbest'.extend (by omega) fun count found hcount hle =>
            habove count found (by omega) hle
    · exact .inr ⟨best, rfl, hend (by omega)⟩

/-- A probe whose rejections are kept by greater counts is searched to the end, or to an error of
the probe, with as much fuel as there are counts. -/
theorem bisect_spec (limit : ℕ) (hrejects : Rejects probe) :
    (∃ count e, 0 < count ∧ count ≤ limit ∧ probe count = .error e ∧
      bisect probe limit 1 limit none = some (.error e)) ∨
    ∃ best, bisect probe limit 1 limit none = some (.ok best) ∧ IsGreatest probe limit best := by
  refine bisect_invariant hrejects Nat.one_pos (by omega) (Nat.le_refl _) (by omega) ?_ ?_
  · intro count found hpos hle
    omega
  · intro count found hlt hle
    omega

/-! ## Greedy cuts -/

/-- Sizes of consecutive pieces of a list, each as long as it fits. -/
inductive Greedy (fits : List α → Prop) : List α → List ℕ → Prop
  | nil : Greedy fits [] []
  | cons {l : List α} {size : ℕ} {sizes : List ℕ} (hpos : 0 < size) (hle : size ≤ l.length)
      (hfits : fits (l.take size))
      (hgreatest : ∀ later, size < later → later ≤ l.length → ¬ fits (l.take later))
      (hrest : Greedy fits (l.drop size) sizes) : Greedy fits l (size :: sizes)

namespace Greedy

variable {fits : List α → Prop} {l : List α} {sizes : List ℕ}

theorem sum_eq (h : Greedy fits l sizes) : sizes.sum = l.length := by
  induction h with
  | nil => rfl
  | cons _ hle _ _ _ ih =>
    rw [List.sum_cons, ih, List.length_drop]
    omega

theorem unique {sizes' : List ℕ} (h : Greedy fits l sizes) (h' : Greedy fits l sizes') :
    sizes = sizes' := by
  induction h generalizing sizes' with
  | nil =>
    cases h' with
    | nil => rfl
    | cons hpos hle => exact absurd (Nat.lt_of_lt_of_le hpos hle) (Nat.lt_irrefl 0)
  | @cons _ size sizes hpos hle hfits hgreatest _ ih =>
    cases h' with
    | nil => exact absurd (Nat.lt_of_lt_of_le hpos hle) (Nat.lt_irrefl 0)
    | @cons _ size' _ _ hle' hfits' hgreatest' hrest' =>
      obtain hlt | rfl | hlt := Nat.lt_trichotomy size size'
      · exact absurd hfits' (hgreatest _ hlt hle')
      · rw [ih hrest']
      · exact absurd hfits (hgreatest' _ hlt hle)

theorem map {f : α → β} {fits' : List β → Prop} (h : Greedy fits l sizes)
    (hiff : ∀ part, part <:+: l → (fits' (part.map f) ↔ fits part)) :
    Greedy fits' (l.map f) sizes := by
  induction h with
  | nil => exact .nil
  | @cons l size sizes hpos hle hfits hgreatest hrest ih =>
    have htake (count : ℕ) : fits' ((l.map f).take count) ↔ fits (l.take count) := by
      rw [← List.map_take]
      exact hiff _ (List.take_prefix ..).isInfix
    refine .cons hpos ((List.length_map f).symm ▸ hle) ((htake size).2 hfits) ?_ ?_
    · intro later hlt hle' hlater
      exact hgreatest later hlt (List.length_map f ▸ hle') ((htake later).1 hlater)
    · rw [← List.map_drop]
      exact ih fun part hpart => hiff part (hpart.trans (List.drop_suffix ..).isInfix)

/-- Each piece of a greedy cut fits. -/
theorem forall_mem_cutBatches (h : Greedy fits l sizes) :
    ∀ part ∈ cutBatches l sizes, part ≠ [] ∧ part <:+: l ∧ fits part := by
  induction h with
  | nil =>
    intro part hpart
    cases hpart
  | @cons l size sizes hpos hle hfits _ _ ih =>
    rw [cutBatches, List.forall_mem_cons]
    refine ⟨⟨?_, (List.take_prefix ..).isInfix, hfits⟩, ?_⟩
    · rw [← List.length_pos_iff, List.length_take]
      omega
    · intro part hpart
      obtain ⟨hne, hblock, hpartFits⟩ := ih part hpart
      exact ⟨hne, hblock.trans (List.drop_suffix ..).isInfix, hpartFits⟩

/-- A greedy cut of the end of a list has no more pieces than any cut of the list whose pieces
fit, and whose ends of pieces fit. -/
theorem length_le_of_suffix (hsuffix : ∀ front back, fits (front ++ back) → fits back)
    {rest : List α} {parts : List (List α)} (h : Greedy fits rest sizes)
    (hrest : rest <:+ parts.flatten) (hparts : ∀ part ∈ parts, fits part) :
    sizes.length ≤ parts.length := by
  induction parts generalizing rest sizes with
  | nil =>
    obtain rfl := List.suffix_nil.1 hrest
    cases h with
    | nil => exact Nat.le_refl _
    | cons hpos hle => exact absurd (Nat.lt_of_lt_of_le hpos hle) (Nat.lt_irrefl 0)
  | cons part parts ih =>
    obtain ⟨hpart, hparts⟩ := List.forall_mem_cons.1 hparts
    cases h with
    | nil => exact Nat.zero_le _
    | @cons _ size sizes hpos hle hfits hgreatest hrest' =>
      refine Nat.succ_le_succ (ih hrest' ?_ hparts)
      rw [List.flatten_cons] at hrest
      rcases List.suffix_or_suffix_of_suffix hrest (List.suffix_append ..) with
        hlater | ⟨back, rfl⟩
      · exact (List.drop_suffix ..).trans hlater
      -- the greedy piece is at least as long as what is left of the part
      · obtain ⟨front, hfront⟩ := hrest
        rw [← List.append_assoc, List.append_left_inj] at hfront
        have hsize : back.length ≤ size := by
          by_contra hlt
          refine hgreatest back.length (by omega) (by simp) ?_
          rw [List.take_left]
          exact hsuffix front back (hfront ▸ hpart)
        rw [List.drop_append, List.drop_eq_nil_of_le hsize, List.nil_append]
        exact List.drop_suffix ..

/-- A greedy cut has the fewest pieces. -/
theorem length_le (hsuffix : ∀ front back, fits (front ++ back) → fits back)
    {parts : List (List α)} (h : Greedy fits parts.flatten sizes)
    (hparts : ∀ part ∈ parts, fits part) : sizes.length ≤ parts.length :=
  h.length_le_of_suffix hsuffix (List.suffix_refl _) hparts

end Greedy

end VizorWallet
