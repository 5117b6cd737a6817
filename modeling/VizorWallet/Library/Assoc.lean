import Mathlib.Data.List.Induction

/-!
# Maps as lists of pairs

Maps with few keys, as lists of keys and values in which every key occurs once.

## Main definitions

* `insertKey` — set the value of a key.
* `collect` — the map of some pairs, in which later pairs win.
-/

namespace VizorWallet

variable {κ ν : Type*} [DecidableEq κ] {key key' : κ} {value value' : ν} {entries : List (κ × ν)}

/-- Set the value of a key. -/
def insertKey (key : κ) (value : ν) (entries : List (κ × ν)) : List (κ × ν) :=
  (key, value) :: entries.filter fun entry => entry.1 ≠ key

/-- The map of some pairs; the last pair of a key wins. -/
def collect (entries : List (κ × ν)) : List (κ × ν) :=
  entries.foldl (fun map entry => insertKey entry.1 entry.2 map) []

theorem lookup_filter_key (p : κ → Bool) (entries : List (κ × ν)) (key : κ) :
    (entries.filter fun entry => p entry.1).lookup key =
      if p key then entries.lookup key else none := by
  induction entries with
  | nil => simp
  | cons entry rest ih =>
    by_cases hsame : key = entry.1 <;> by_cases hkeep : p entry.1 <;>
      grind

theorem lookup_insertKey (key key' : κ) (value : ν) (entries : List (κ × ν)) :
    (insertKey key value entries).lookup key' =
      if key' = key then some value else entries.lookup key' := by
  have hrest := lookup_filter_key (fun k => k ≠ key) entries key'
  simp only [decide_not] at hrest
  by_cases hsame : key' = key <;> grind [insertKey]

theorem mem_of_lookup_eq_some (h : entries.lookup key = some value) : (key, value) ∈ entries := by
  obtain ⟨before, after, hentries, -⟩ := List.lookup_eq_some_iff.1 h
  rw [hentries]
  exact List.mem_append_right _ List.mem_cons_self

theorem lookup_of_mem (hnodup : (entries.map Prod.fst).Nodup) (h : (key, value) ∈ entries) :
    entries.lookup key = some value := by
  induction entries with
  | nil => cases h
  | cons entry rest ih =>
    rw [List.map_cons, List.nodup_cons] at hnodup
    obtain rfl | hrest := List.mem_cons.1 h
    · exact List.lookup_cons_self
    · have hne : key ≠ entry.1 := fun heq => hnodup.1 (heq ▸ List.mem_map_of_mem hrest)
      rw [List.lookup_cons, beq_false_of_ne hne]
      exact ih hnodup.2 hrest

theorem mem_insertKey {entry : κ × ν} (h : entry ∈ insertKey key value entries) :
    entry = (key, value) ∨ entry ∈ entries ∧ entry.1 ≠ key := by
  obtain rfl | hrest := List.mem_cons.1 h
  · exact .inl rfl
  · obtain ⟨hmem, hne⟩ := List.mem_filter.1 hrest
    exact .inr ⟨hmem, of_decide_eq_true hne⟩

theorem mem_collect {entry : κ × ν} (h : entry ∈ collect entries) : entry ∈ entries := by
  induction entries using List.reverseRecOn with
  | nil => exact h
  | append_singleton rest last ih =>
    rw [collect, List.foldl_append] at h
    obtain rfl | ⟨hrest, -⟩ := mem_insertKey h
    · exact List.mem_append_right _ (List.mem_singleton_self _)
    · exact List.mem_append_left _ (ih hrest)

/-- Several keys are set to one value. -/
theorem mem_foldl_insertKey {entry : κ × ν} {keys : List κ}
    (h : entry ∈ keys.foldl (fun map key => insertKey key value map) entries) :
    entry.1 ∈ keys ∧ entry.2 = value ∨ entry ∈ entries ∧ entry.1 ∉ keys := by
  induction keys generalizing entries with
  | nil => exact .inr ⟨h, List.not_mem_nil⟩
  | cons first rest ih =>
    obtain ⟨hmem, hvalue⟩ | ⟨hinsert, hrest⟩ := ih h
    · exact .inl ⟨List.mem_cons_of_mem _ hmem, hvalue⟩
    · obtain rfl | ⟨hentry, hne⟩ := mem_insertKey hinsert
      · exact .inl ⟨List.mem_cons_self, rfl⟩
      · exact .inr ⟨hentry, List.not_mem_cons_of_ne_of_not_mem hne hrest⟩

/-- What a collected map holds is the last pair of a key. -/
theorem lookup_collect (entries : List (κ × ν)) (key : κ) :
    (collect entries).lookup key = entries.reverse.lookup key := by
  induction entries using List.reverseRecOn with
  | nil => rfl
  | append_singleton rest entry ih =>
    rw [collect, List.foldl_append, List.reverse_append]
    change (insertKey entry.1 entry.2 (collect rest)).lookup key = _
    rw [lookup_insertKey, ih]
    by_cases hsame : key = entry.1 <;> grind

theorem nodup_insertKey (h : (entries.map Prod.fst).Nodup) :
    ((insertKey key value entries).map Prod.fst).Nodup := by
  rw [insertKey, List.map_cons, List.nodup_cons]
  refine ⟨fun hmem => ?_, h.sublist (List.filter_sublist.map _)⟩
  obtain ⟨entry, hentry, rfl⟩ := List.mem_map.1 hmem
  exact of_decide_eq_true (List.mem_filter.1 hentry).2 rfl

theorem nodup_collect (entries : List (κ × ν)) : ((collect entries).map Prod.fst).Nodup := by
  induction entries using List.reverseRecOn with
  | nil => exact List.nodup_nil
  | append_singleton rest entry ih =>
    rw [collect, List.foldl_append]
    exact nodup_insertKey ih

/-- Collecting a map changes nothing. -/
theorem lookup_collect_of_nodup (h : (entries.map Prod.fst).Nodup) (key : κ) :
    (collect entries).lookup key = entries.lookup key := by
  rw [lookup_collect]
  induction entries with
  | nil => rfl
  | cons entry rest ih =>
    rw [List.map_cons, List.nodup_cons] at h
    rw [List.reverse_cons, List.lookup_append, ih h.2]
    by_cases hsame : key = entry.1
    · subst hsame
      have hnone : rest.lookup entry.1 = none := by
        refine List.lookup_eq_none_iff.2 fun other hother => ?_
        have hne : entry.1 ≠ other.1 := fun heq => h.1 (heq ▸ List.mem_map_of_mem hother)
        simpa using hne
      grind
    · grind

end VizorWallet
