import VizorWallet.Migration.Preparation.Ledger
import Mathlib.Tactic.Abel

/-!
# Direct funding

The exact-match pass takes each wallet note at most once, and takes only notes of the value they
fund.  The notes it leaves are the wallet the planners spend from.
-/

namespace VizorWallet.Migration

variable {available : List ℕ} {used : List Bool} {scan : DirectScan}

theorem matchingNote_spec {funding index : ℕ} (hlen : used.length = available.length)
    (h : matchingNote available used funding = some index) :
    available[index]? = some funding ∧ used[index]? = some false := by
  obtain ⟨hindex, hmatch, -⟩ := List.findIdx?_eq_some_iff_getElem.1 h
  rw [List.length_zip, hlen, Nat.min_self] at hindex
  simp only [List.getElem_zip, Bool.and_eq_true, Bool.not_eq_true', beq_iff_eq] at hmatch
  exact ⟨by rw [List.getElem?_eq_getElem hindex, hmatch.2],
    by rw [List.getElem?_eq_getElem (by omega), hmatch.1]⟩

/-- What the exact-match pass keeps while it runs through the funding values `seen`. -/
structure DirectScan.Valid (available : List ℕ) (seen : Multiset ℕ) (scan : DirectScan) :
    Prop where
  length_used : scan.used.length = available.length
  used_iff : ∀ index, scan.used[index]? = some true ↔ index ∈ scan.direct.map Prod.fst
  nodup : (scan.direct.map Prod.fst).Nodup
  carried : ∀ note ∈ scan.direct, available[note.1]? = some note.2
  funding : (scan.kept : Multiset ℕ) + scan.direct.map Prod.snd = seen

theorem DirectScan.Valid.step {seen : Multiset ℕ} (h : scan.Valid available seen)
    (funding : ℕ) : (scan.step available funding).Valid available (seen + {funding}) := by
  unfold DirectScan.step
  split
  · rename_i index hmatch
    obtain ⟨hvalue, hfree⟩ := matchingNote_spec h.length_used hmatch
    obtain ⟨hlt, -⟩ := List.getElem?_eq_some_iff.1 hfree
    constructor
    · simpa using h.length_used
    · intro i
      have := h.used_iff i
      simp only [List.getElem?_set, List.map_append, List.mem_append, List.map_cons, List.map_nil,
        List.mem_singleton]
      split_ifs with heq
      · simp [heq]
      · simp [this, Ne.symm heq]
    · simp only [List.map_append, List.map_cons, List.map_nil, List.nodup_append,
        List.mem_singleton, List.nodup_singleton, true_and]
      refine ⟨h.nodup, fun i hi j hj heq => ?_⟩
      have hused := (h.used_iff i).2 hi
      rw [heq, hj, hfree] at hused
      simp at hused
    · intro note hmem
      rcases List.mem_append.1 hmem with hmem | hmem
      · exact h.carried note hmem
      · rw [List.mem_singleton.1 hmem]
        exact hvalue
    · rw [← h.funding, List.map_append, ← Multiset.coe_add, add_assoc]
      rfl
  · refine { h with funding := ?_ }
    rw [← h.funding, ← Multiset.coe_add, Multiset.coe_singleton]
    abel

theorem extractDirectFunding_valid (available remaining : List ℕ) :
    (extractDirectFunding available remaining).Valid available remaining := by
  have hfold : ∀ (values : List ℕ) (seen : Multiset ℕ) (scan : DirectScan),
      scan.Valid available seen →
      (values.foldl (DirectScan.step available) scan).Valid available (seen + values) := by
    intro values
    induction values with
    | nil => intro seen scan h; simpa using h
    | cons v rest ih =>
      intro seen scan h
      have hrest := ih _ _ (h.step v)
      rwa [add_assoc, Multiset.singleton_add, Multiset.cons_coe] at hrest
  have hstart : DirectScan.Valid available 0
      { used := List.replicate available.length false, direct := [], kept := [] } :=
    ⟨by simp, by simp [List.getElem?_replicate], by simp, by simp, by simp⟩
  simpa [extractDirectFunding] using hfold remaining 0 _ hstart

/-- The wallet notes are the available notes that are not used. -/
theorem mem_walletNotes {note : PrepInput} :
    note ∈ walletNotes available used ↔
      ∃ index value, note = .wallet index value ∧ available[index]? = some value ∧
        used[index]? = some false := by
  simp only [walletNotes, List.mem_filterMap, Prod.exists, List.mk_mem_zipIdx_iff_getElem?,
    List.getElem?_zip_eq_some]
  constructor
  · rintro ⟨value, taken, index, ⟨hvalue, htaken⟩, hnote⟩
    cases taken
    · exact ⟨index, value, (Option.some.inj hnote).symm, hvalue, htaken⟩
    · simp at hnote
  · rintro ⟨index, value, rfl, hvalue, htaken⟩
    exact ⟨value, false, index, ⟨hvalue, htaken⟩, rfl⟩

theorem nodup_walletNotes (available : List ℕ) (used : List Bool) :
    ((walletNotes available used).map PrepInput.ref).Nodup := by
  rw [List.Nodup, List.pairwise_map, walletNotes]
  refine (pairwise_zipIdx (available.zip used) 0).filterMap _ ?_
  rintro ⟨⟨value, taken⟩, index⟩ ⟨⟨value', taken'⟩, index'⟩ hlt note hnote note' hnote'
  cases taken <;> cases taken' <;>
    simp only [if_true, if_false, Bool.false_eq_true, reduceCtorEq, Option.some.injEq]
      at hnote hnote'
  subst hnote hnote'
  simp only [PrepInput.ref, ne_eq, NoteRef.wallet.injEq]
  omega

end VizorWallet.Migration
