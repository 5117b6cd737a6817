import Mathlib.Data.List.Basic

/-!
# Tables of processes

A list of processes of which one step replaces one entry.

## Main results

* `exists_mem_set` — a process of a kind remains when the replaced entry keeps its kind.
* `forall_mem_set` — what holds of all processes after one was replaced.
-/

namespace VizorWallet

variable {α : Type*} {l : List α} {i : ℕ} {old new : α} {P : α → Prop}

theorem exists_mem_set (hold : l[i]? = some old) (h : ∃ a ∈ l, P a) (hkeep : P old → P new) :
    ∃ a ∈ l.set i new, P a := by
  obtain ⟨a, ha, hPa⟩ := h
  obtain ⟨j, hj⟩ := List.mem_iff_getElem?.1 ha
  by_cases hij : i = j
  · subst hij
    obtain rfl : old = a := by simpa [hold] using hj
    exact ⟨new, List.mem_set (List.getElem?_eq_some_iff.1 hold).1 new, hkeep hPa⟩
  · refine ⟨a, List.mem_iff_getElem?.2 ⟨j, ?_⟩, hPa⟩
    rw [List.getElem?_set_ne hij, hj]

theorem mem_set_self (hold : l[i]? = some old) : new ∈ l.set i new :=
  List.mem_set (List.getElem?_eq_some_iff.1 hold).1 new

theorem forall_mem_set (h : ∀ a ∈ l, P a) (hnew : P new) : ∀ a ∈ l.set i new, P a := by
  intro a ha
  obtain ha | rfl := List.mem_or_eq_of_mem_set ha
  · exact h a ha
  · exact hnew

end VizorWallet
