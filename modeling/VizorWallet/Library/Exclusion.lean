import Mathlib.Data.List.Basic

/-!
# Queries with growing exclusions

A query is repeated, each time without what was refused of its last answer, until nothing of the
answer is refused.

## Main definitions

* `retry` — the repetition; the fuel may run out.

## Main results

* `retry_isSome` — when new elements of a list are refused each time, the repetition ends.
* `retry_spec` — the result is an answer of the query, at exclusions that keep an invariant.
-/

namespace VizorWallet

variable {α β ε : Type*}

/-- Query again without what was refused. `none` when the fuel is used up. -/
def retry (query : List α → Except ε β) (refused : β → List α)
    (merge : List α → List α → List α) : ℕ → List α → Option (Except ε β)
  | 0, _ => none
  | fuel + 1, excluded =>
    match query excluded with
    | .error error => some (.error error)
    | .ok answer =>
      if (refused answer).isEmpty then some (.ok answer)
      else retry query refused merge fuel (merge excluded (refused answer))

variable {query : List α → Except ε β} {refused : β → List α}
  {merge : List α → List α → List α} {fuel : ℕ} {excluded : List α}

/-- A filter that lets less of a list through gives a sublist. -/
theorem filter_sublist_filter {p q : α → Bool} {l : List α} (h : ∀ a ∈ l, p a → q a) :
    (l.filter p).Sublist (l.filter q) := by
  have hfilter : l.filter p = (l.filter q).filter p := by
    rw [List.filter_filter]
    apply List.filter_congr
    intro a ha
    cases hp : p a with
    | false => rfl
    | true =>
      rw [h a ha hp]
      rfl
  rw [hfilter]
  exact List.filter_sublist

/-- Fewer elements of a list are outside the exclusions once one of them is excluded. -/
theorem countP_notMem_lt [DecidableEq α] {pool merged : List α} {a : α} (ha : a ∈ pool)
    (hnew : a ∉ excluded) (hmerged : a ∈ merged) (hkept : ∀ b ∈ excluded, b ∈ merged) :
    pool.countP (· ∉ merged) < pool.countP (· ∉ excluded) := by
  rw [List.countP_eq_length_filter, List.countP_eq_length_filter]
  have hsub : (pool.filter (· ∉ merged)).Sublist (pool.filter (· ∉ excluded)) := by
    apply filter_sublist_filter
    intro b _ hb
    simp only [decide_eq_true_eq] at hb ⊢
    intro hexcluded
    exact hb (hkept b hexcluded)
  apply Nat.lt_of_le_of_ne hsub.length_le
  intro hlength
  have hsame := hsub.eq_of_length hlength
  have hmem : a ∈ pool.filter (· ∉ excluded) :=
    List.mem_filter.2 ⟨ha, decide_eq_true hnew⟩
  rw [← hsame, List.mem_filter] at hmem
  exact of_decide_eq_true hmem.2 hmerged

/-- The repetition ends when what is refused each time comes from a list and is new. -/
theorem retry_isSome [DecidableEq α] (pool : List α)
    (hmerge : ∀ excluded new a, a ∈ merge excluded new ↔ a ∈ excluded ∨ a ∈ new)
    (hnew : ∀ excluded answer, query excluded = .ok answer →
      ∀ a ∈ refused answer, a ∈ pool ∧ a ∉ excluded)
    (hfuel : pool.countP (· ∉ excluded) < fuel) :
    (retry query refused merge fuel excluded).isSome := by
  induction fuel generalizing excluded with
  | zero => cases hfuel
  | succ fuel ih =>
    rw [retry]
    cases hanswer : query excluded with
    | error error => rfl
    | ok answer =>
      dsimp only
      split_ifs with hempty
      · rfl
      · obtain ⟨a, ha⟩ := List.exists_mem_of_ne_nil (refused answer) (by simpa using hempty)
        obtain ⟨hpool, hfresh⟩ := hnew excluded answer hanswer a ha
        have hlt : pool.countP (· ∉ merge excluded (refused answer)) <
            pool.countP (· ∉ excluded) := by
          apply countP_notMem_lt hpool hfresh ((hmerge _ _ a).2 (.inr ha))
          intro b hb
          exact (hmerge _ _ b).2 (.inl hb)
        apply ih
        omega

/-- The result is an answer of the query of which nothing is refused, or its error, at exclusions
that keep an invariant. -/
theorem retry_spec {P : List α → Prop} {result : Except ε β} (hstart : P excluded)
    (hstep : ∀ excluded answer, P excluded → query excluded = .ok answer →
      P (merge excluded (refused answer)))
    (h : retry query refused merge fuel excluded = some result) :
    ∃ final, P final ∧ query final = result ∧
      ∀ answer, result = .ok answer → refused answer = [] := by
  induction fuel generalizing excluded with
  | zero => cases h
  | succ fuel ih =>
    rw [retry] at h
    cases hanswer : query excluded with
    | error error =>
      rw [hanswer] at h
      obtain rfl := Option.some.inj h
      exact ⟨excluded, hstart, hanswer, nofun⟩
    | ok answer =>
      rw [hanswer] at h
      dsimp only at h
      split_ifs at h with hempty
      · obtain rfl := Option.some.inj h
        refine ⟨excluded, hstart, hanswer, ?_⟩
        rintro _ ⟨⟩
        exact List.isEmpty_iff.1 hempty
      · exact ih (hstep excluded answer hstart hanswer) h

end VizorWallet
