import Mathlib.Data.List.Basic

/-!
# Changing the first match

## Main definitions

* `modifyFirst` — change the first element that satisfies a test.

## Main results

* `modifyFirst_eq_map` — when no two elements satisfy the test.
* `find?_modifyFirst` — the changed element is found in its place.
-/

namespace VizorWallet

variable {α : Type*} {p : α → Bool} {f : α → α} {l : List α}

/-- Change the first element that satisfies a test. -/
def modifyFirst (p : α → Bool) (f : α → α) : List α → List α
  | [] => []
  | a :: l => if p a then f a :: l else a :: modifyFirst p f l

/-- When a single element satisfies the test, it is the one that changes. -/
theorem modifyFirst_eq_map (h : l.Pairwise fun a b => p a → ¬ p b) :
    modifyFirst p f l = l.map fun a => if p a then f a else a := by
  induction l with
  | nil => rfl
  | cons a l ih =>
    obtain ⟨hhead, htail⟩ := List.pairwise_cons.1 h
    rw [modifyFirst, List.map_cons]
    by_cases hp : p a
    · have hrest : (l.map fun b => if p b then f b else b) = l :=
        (List.map_congr_left fun b hb => if_neg (hhead b hb hp)).trans (List.map_id l)
      rw [if_pos hp, if_pos hp, hrest]
    · rw [if_neg hp, if_neg hp, ih htail]

theorem find?_modifyFirst {a : α} (hfind : l.find? p = some a) (ha : p (f a)) :
    (modifyFirst p f l).find? p = some (f a) := by
  induction l with
  | nil => cases hfind
  | cons head l ih =>
    rw [modifyFirst]
    by_cases hp : p head
    · obtain rfl : head = a := by simpa [hp] using hfind
      simp [hp, ha]
    · rw [if_neg hp, List.find?_cons_of_neg hp]
      exact ih (by simpa [hp] using hfind)

theorem mem_of_mem_modifyFirst {a : α} (h : a ∈ modifyFirst p f l) : a ∈ l ∨ ∃ b ∈ l, a = f b := by
  induction l with
  | nil => cases h
  | cons head l ih =>
    rw [modifyFirst] at h
    split at h
    · rcases List.mem_cons.1 h with rfl | h
      · exact .inr ⟨head, List.mem_cons_self, rfl⟩
      · exact .inl (List.mem_cons_of_mem _ h)
    · rcases List.mem_cons.1 h with rfl | h
      · exact .inl List.mem_cons_self
      · exact (ih h).imp (List.mem_cons_of_mem _) fun ⟨b, hb, heq⟩ =>
          ⟨b, List.mem_cons_of_mem _ hb, heq⟩

/-- A filter that drops the changed element before and after does not see the change. -/
theorem filter_modifyFirst {q : α → Bool} (h : ∀ a, p a → ¬ q a ∧ ¬ q (f a)) :
    (modifyFirst p f l).filter q = l.filter q := by
  induction l with
  | nil => rfl
  | cons head l ih =>
    rw [modifyFirst]
    by_cases hp : p head
    · obtain ⟨hold, hnew⟩ := h head hp
      rw [if_pos hp, List.filter_cons_of_neg hold, List.filter_cons_of_neg hnew]
    · rw [if_neg hp, List.filter_cons, List.filter_cons, ih]

/-- When a single element satisfies the test, it is the one that is found. -/
theorem eq_of_find?_eq_some (h : l.Pairwise fun a b => p a → ¬ p b) {a b : α}
    (hfind : l.find? p = some a) (hb : b ∈ l) (hp : p b) : b = a := by
  induction l with
  | nil => cases hb
  | cons head l ih =>
    obtain ⟨hhead, htail⟩ := List.pairwise_cons.1 h
    by_cases hph : p head
    · have hfound : head = a := by simpa [hph] using hfind
      obtain rfl | hmem := List.mem_cons.1 hb
      · exact hfound
      · exact absurd hp (hhead b hmem hph)
    · have hmem : b ∈ l := (List.mem_cons.1 hb).resolve_left fun heq => hph (heq ▸ hp)
      exact ih htail (by simpa [hph] using hfind) hmem

end VizorWallet
