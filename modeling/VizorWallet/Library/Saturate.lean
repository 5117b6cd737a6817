import Mathlib.Data.Finset.Card
import Mathlib.Data.Finset.Image
import Mathlib.Logic.Relation

/-!
# Descendants by saturation

Nodes name their parents. Passes over the nodes add the children of a set to it until nothing is
added, and collect the marked children on the way.

## Main definitions

* `saturatePass`, `saturate` — one pass, and passes until the set stops growing.
* `ParentOf` — the edges.

## Main results

* `mem_saturate` — the saturated set are the descendants of the start.
* `mem_saturate_marked` — the collected nodes are the marked children of that set.
-/

namespace VizorWallet

variable {ν α : Type*} [DecidableEq α] (key : ν → α) (parents : ν → List α) (mark : ν → Bool)

/-- Add the node to the set if a parent is in it, and collect it if it is marked. -/
def saturateNode (s : Finset α × Finset α) (n : ν) : Finset α × Finset α :=
  if (parents n).any (· ∈ s.1) then
    (insert (key n) s.1, if mark n then insert (key n) s.2 else s.2)
  else s

/-- One pass over the nodes. -/
def saturatePass (nodes : List ν) (s : Finset α × Finset α) : Finset α × Finset α :=
  nodes.foldl (saturateNode key parents mark) s

/-- Passes until the set stops growing, at most the given number of them. -/
def saturate (nodes : List ν) : ℕ → Finset α × Finset α → Finset α × Finset α
  | 0, s => s
  | rounds + 1, s =>
    let s' := saturatePass key parents mark nodes s
    if s'.1.card = s.1.card then s' else saturate nodes rounds s'

/-- The second is a node whose parents include the first. -/
def ParentOf (nodes : List ν) (parent child : α) : Prop :=
  ∃ n ∈ nodes, parent ∈ parents n ∧ key n = child

variable {key parents mark} {nodes : List ν} {s : Finset α × Finset α}

/-! ## One pass -/

theorem saturateNode_fst (n : ν) : (saturateNode key parents mark s n).1 =
    if (parents n).any (· ∈ s.1) then insert (key n) s.1 else s.1 := by
  unfold saturateNode
  split_ifs <;> rfl

variable (key parents mark nodes s) in
theorem subset_saturateNode (n : ν) : s.1 ⊆ (saturateNode key parents mark s n).1 ∧
    s.2 ⊆ (saturateNode key parents mark s n).2 := by
  unfold saturateNode
  split_ifs <;> simp [Finset.subset_insert]

variable (key parents mark nodes s) in
theorem subset_saturatePass : s.1 ⊆ (saturatePass key parents mark nodes s).1 ∧
    s.2 ⊆ (saturatePass key parents mark nodes s).2 := by
  unfold saturatePass
  induction nodes generalizing s with
  | nil => simp
  | cons n rest ih =>
    have hnode := subset_saturateNode key parents mark s n
    exact ⟨hnode.1.trans (ih _).1, hnode.2.trans (ih _).2⟩

/-- A pass adds descendants only. -/
theorem saturatePass_sound {all : List ν} (hsub : nodes ⊆ all) {a : α}
    (ha : a ∈ (saturatePass key parents mark nodes s).1) :
    ∃ b ∈ s.1, Relation.ReflTransGen (ParentOf key parents all) b a := by
  unfold saturatePass at ha
  induction nodes generalizing s with
  | nil => exact ⟨a, ha, .refl⟩
  | cons n rest ih =>
    obtain ⟨b, hb, hba⟩ := ih (fun _ hn => hsub (List.mem_cons_of_mem n hn)) ha
    rw [saturateNode_fst] at hb
    split_ifs at hb with hparent
    · obtain ⟨p, hp, hps⟩ := List.any_eq_true.1 hparent
      obtain rfl | hb := Finset.mem_insert.1 hb
      · exact ⟨p, of_decide_eq_true hps, .head ⟨n, hsub List.mem_cons_self, hp, rfl⟩ hba⟩
      · exact ⟨b, hb, hba⟩
    · exact ⟨b, hb, hba⟩

/-- A pass collects marked children only. -/
theorem saturatePass_marked {a : α} (ha : a ∈ (saturatePass key parents mark nodes s).2) :
    a ∈ s.2 ∨ ∃ n ∈ nodes, mark n ∧ key n = a ∧
      ∃ p ∈ parents n, p ∈ (saturatePass key parents mark nodes s).1 := by
  unfold saturatePass at ha ⊢
  induction nodes generalizing s with
  | nil => exact .inl ha
  | cons n rest ih =>
    have hgrow := (subset_saturatePass key parents mark rest (saturateNode key parents mark s n)).1
    obtain hnode | ⟨m, hm, hmark, hkey, hparent⟩ := ih ha
    · unfold saturateNode at hnode
      split_ifs at hnode with hany hmark
      · obtain rfl | hnode := Finset.mem_insert.1 hnode
        · obtain ⟨p, hp, hps⟩ := List.any_eq_true.1 hany
          refine .inr ⟨n, List.mem_cons_self, hmark, rfl, p, hp, hgrow ?_⟩
          exact (subset_saturateNode key parents mark s n).1 (of_decide_eq_true hps)
        · exact .inl hnode
      · exact .inl hnode
      · exact .inl hnode
    · exact .inr ⟨m, List.mem_cons_of_mem n hm, hmark, hkey, hparent⟩

/-- A pass adds every child of the set, and collects the marked ones. -/
theorem saturatePass_complete {n : ν} (hn : n ∈ nodes) (hparent : ∃ p ∈ parents n, p ∈ s.1) :
    key n ∈ (saturatePass key parents mark nodes s).1 ∧
      (mark n → key n ∈ (saturatePass key parents mark nodes s).2) := by
  unfold saturatePass
  induction nodes generalizing s with
  | nil => cases hn
  | cons m rest ih =>
    have hgrow := subset_saturateNode key parents mark s m
    obtain rfl | hn := List.mem_cons.1 hn
    · have hany : (parents n).any (· ∈ s.1) := by simpa using hparent
      have hrest := subset_saturatePass key parents mark rest (saturateNode key parents mark s n)
      refine ⟨hrest.1 ?_, fun hmark => hrest.2 ?_⟩
      · simp [saturateNode, hany]
      · simp [saturateNode, hany, hmark]
    · obtain ⟨p, hp, hps⟩ := hparent
      exact ih hn ⟨p, hp, hgrow.1 hps⟩

/-! ## All passes -/

theorem subset_saturate {rounds : ℕ} : s.1 ⊆ (saturate key parents mark nodes rounds s).1 ∧
    s.2 ⊆ (saturate key parents mark nodes rounds s).2 := by
  induction rounds generalizing s with
  | zero => simp [saturate]
  | succ rounds ih =>
    have hpass := subset_saturatePass key parents mark nodes s
    unfold saturate
    dsimp only
    split_ifs
    · exact hpass
    · exact ⟨hpass.1.trans ih.1, hpass.2.trans ih.2⟩

/-- The keys of the nodes that are not in the set yet. -/
def missing (key : ν → α) (nodes : List ν) (s : Finset α) : Finset α :=
  (nodes.map key).toFinset \ s

/-- Enough passes leave no child out. -/
theorem saturate_complete {rounds : ℕ} (hrounds : (missing key nodes s.1).card < rounds) {n : ν}
    (hn : n ∈ nodes)
    (hparent : ∃ p ∈ parents n, p ∈ (saturate key parents mark nodes rounds s).1) :
    key n ∈ (saturate key parents mark nodes rounds s).1 ∧
      (mark n → key n ∈ (saturate key parents mark nodes rounds s).2) := by
  induction rounds generalizing s with
  | zero => omega
  | succ rounds ih =>
    have hgrow := (subset_saturatePass key parents mark nodes s).1
    unfold saturate at hparent ⊢
    dsimp only at hparent ⊢
    split_ifs at hparent ⊢ with hcard
    · have hsame := Finset.eq_of_subset_of_card_le hgrow hcard.le
      rw [← hsame] at hparent
      exact saturatePass_complete hn hparent
    · -- The pass has added the key of a node, so fewer are missing.
      refine ih ?_ hparent
      refine (Finset.card_lt_card ?_).trans_le (Nat.lt_succ_iff.1 hrounds)
      refine ⟨Finset.sdiff_subset_sdiff subset_rfl hgrow, fun hsub => hcard ?_⟩
      refine congrArg Finset.card (Finset.Subset.antisymm (fun a ha => ?_) hgrow)
      by_contra hnot
      obtain ⟨b, hb, hba⟩ := saturatePass_sound (List.Subset.refl nodes) ha
      obtain rfl | ⟨_, _, m, hm, -, rfl⟩ := hba.cases_tail
      · exact hnot hb
      · have hmissing : key m ∈ missing key nodes s.1 :=
          Finset.mem_sdiff.2 ⟨by simpa using ⟨m, hm, rfl⟩, hnot⟩
        exact (Finset.mem_sdiff.1 (hsub hmissing)).2 ha

theorem saturate_sound {rounds : ℕ} {a : α}
    (ha : a ∈ (saturate key parents mark nodes rounds s).1) :
    ∃ b ∈ s.1, Relation.ReflTransGen (ParentOf key parents nodes) b a := by
  induction rounds generalizing s with
  | zero => exact ⟨a, ha, .refl⟩
  | succ rounds ih =>
    unfold saturate at ha
    dsimp only at ha
    split_ifs at ha
    · exact saturatePass_sound (List.Subset.refl nodes) ha
    · obtain ⟨b, hb, hba⟩ := ih ha
      obtain ⟨c, hc, hcb⟩ := saturatePass_sound (List.Subset.refl nodes) hb
      exact ⟨c, hc, hcb.trans hba⟩

/-- Enough passes reach exactly the descendants of the start. -/
theorem mem_saturate {rounds : ℕ} (hrounds : (missing key nodes s.1).card < rounds) {a : α} :
    a ∈ (saturate key parents mark nodes rounds s).1 ↔
      ∃ b ∈ s.1, Relation.ReflTransGen (ParentOf key parents nodes) b a := by
  refine ⟨saturate_sound, ?_⟩
  rintro ⟨b, hb, hba⟩
  induction hba with
  | refl => exact subset_saturate.1 hb
  | tail _ hedge ih =>
    obtain ⟨n, hn, hparent, rfl⟩ := hedge
    exact (saturate_complete hrounds hn ⟨_, hparent, ih⟩).1

theorem saturate_marked {rounds : ℕ} {a : α}
    (ha : a ∈ (saturate key parents mark nodes rounds s).2) : a ∈ s.2 ∨ ∃ n ∈ nodes,
      mark n ∧ key n = a ∧ ∃ p ∈ parents n, p ∈ (saturate key parents mark nodes rounds s).1 := by
  induction rounds generalizing s with
  | zero => exact .inl ha
  | succ rounds ih =>
    unfold saturate at ha ⊢
    dsimp only at ha ⊢
    split_ifs at ha ⊢
    · exact saturatePass_marked ha
    · obtain hpass | hlater := ih ha
      · obtain hs | ⟨n, hn, hmark, hkey, p, hp, hps⟩ := saturatePass_marked hpass
        · exact .inl hs
        · exact .inr ⟨n, hn, hmark, hkey, p, hp, subset_saturate.1 hps⟩
      · exact .inr hlater

/-- The collected nodes are the marked ones with a parent among the descendants. -/
theorem mem_saturate_marked {rounds : ℕ} (hrounds : (missing key nodes s.1).card < rounds)
    {a : α} : a ∈ (saturate key parents mark nodes rounds s).2 ↔ a ∈ s.2 ∨ ∃ n ∈ nodes,
      mark n ∧ key n = a ∧ ∃ p ∈ parents n, p ∈ (saturate key parents mark nodes rounds s).1 := by
  refine ⟨saturate_marked, ?_⟩
  rintro (ha | ⟨n, hn, hmark, rfl, hparent⟩)
  · exact subset_saturate.2 ha
  · exact (saturate_complete hrounds hn hparent).2 hmark

end VizorWallet
