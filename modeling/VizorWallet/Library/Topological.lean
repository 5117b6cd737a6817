import Mathlib.Data.Fintype.Card
import Mathlib.Data.Set.Finite.Basic
import Mathlib.Logic.Relation
import Mathlib.Order.Basic

/-!
# Least-first topological orders

Elements are listed one after another, each time the least one whose parents are all listed, until
none is ready. What is left out lies on a cycle or behind one.

## Main definitions

* `BehindCycle` — an element that is reached from a cycle.
* `LeastFirst` — the listing.
* `ParentsFirst` — a log of attempts, each after its parents have succeeded.

## Main results

* `LeastFirst.unique` — the listing is determined by the elements and the parents.
* `LeastFirst.sublist_of_edge` — parents are listed before their children.
* `LeastFirst.mem_iff` — exactly the elements that are not behind a cycle are listed.
* `ParentsFirst.not_behindCycle` — nothing behind a cycle is attempted.
-/

namespace VizorWallet

open Relation

variable {α : Type*} {nodes : Set α} {edge : α → α → Prop} {done order : List α} {a b p : α}

/-! ## Cycles -/

/-- An element of a cycle, or one that is reached from a cycle. -/
def BehindCycle (edge : α → α → Prop) (a : α) : Prop :=
  ∃ b, TransGen edge b b ∧ ReflTransGen edge b a

theorem BehindCycle.child (h : BehindCycle edge p) (hedge : edge p a) : BehindCycle edge a := by
  obtain ⟨b, hcycle, hpath⟩ := h
  exact ⟨b, hcycle, hpath.tail hedge⟩

theorem BehindCycle.exists_parent (h : BehindCycle edge a) :
    ∃ p, edge p a ∧ BehindCycle edge p := by
  obtain ⟨b, hcycle, hpath⟩ := h
  rcases hpath.cases_tail with rfl | ⟨p, hpath, hedge⟩
  · obtain ⟨p, hpath, hedge⟩ := TransGen.tail'_iff.1 hcycle
    exact ⟨p, hedge, _, hcycle, hpath⟩
  · exact ⟨p, hedge, b, hcycle, hpath⟩

/-- A property that passes from all parents to the child holds outside the cycles. -/
theorem of_not_behindCycle {P : α → Prop} (hnodes : nodes.Finite)
    (hclosed : ∀ p a, edge p a → p ∈ nodes)
    (hstep : ∀ a ∈ nodes, (∀ p, edge p a → P p) → P a) (ha : a ∈ nodes)
    (h : ¬ BehindCycle edge a) : P a := by
  let free : Set α := {a | a ∈ nodes ∧ ¬ BehindCycle edge a}
  have : Finite free := (hnodes.subset fun _ hmem => hmem.1).to_subtype
  let ancestor (x y : free) : Prop := TransGen edge x.1 y.1
  have : IsTrans free ancestor := ⟨fun _ _ _ => TransGen.trans⟩
  have : Std.Irrefl ancestor := ⟨fun x hcycle => x.2.2 ⟨x.1, hcycle, .refl⟩⟩
  have hwf : WellFounded ancestor := Finite.wellFounded_of_trans_of_irrefl ancestor
  suffices ∀ x : free, P x.1 from this ⟨a, ha, h⟩
  intro x
  induction x using hwf.induction with
  | _ x ih =>
    exact hstep x.1 x.2.1 fun p hedge => ih ⟨p, hclosed p x.1 hedge,
      fun hbehind => x.2.2 (hbehind.child hedge)⟩ (.single hedge)

/-! ## The listing -/

/-- What can be listed next. -/
structure Ready (nodes : Set α) (edge : α → α → Prop) (done : List α) (a : α) : Prop where
  mem : a ∈ nodes
  fresh : a ∉ done
  parents : ∀ p, edge p a → p ∈ done

/-- A list continues `done` by the least element that is ready, for as long as there is one. -/
inductive LeastFirst [LE α] (nodes : Set α) (edge : α → α → Prop) : List α → List α → Prop
  | stop {done : List α} (h : ∀ a, ¬ Ready nodes edge done a) : LeastFirst nodes edge done []
  | step {done rest : List α} {a : α} (hready : Ready nodes edge done a)
      (hleast : ∀ b, Ready nodes edge done b → a ≤ b)
      (hrest : LeastFirst nodes edge (done ++ [a]) rest) : LeastFirst nodes edge done (a :: rest)

namespace LeastFirst

theorem unique [PartialOrder α] {order' : List α} (h : LeastFirst nodes edge done order)
    (h' : LeastFirst nodes edge done order') : order = order' := by
  induction h generalizing order' with
  | stop hnone =>
    cases h' with
    | stop => rfl
    | step hready => exact absurd hready (hnone _)
  | step hready hleast _ ih =>
    cases h' with
    | stop hnone => exact absurd hready (hnone _)
    | step hready' hleast' hrest' =>
      obtain rfl := le_antisymm (hleast _ hready') (hleast' _ hready)
      rw [ih hrest']

variable [LE α]

theorem not_mem_done (h : LeastFirst nodes edge done order) : ∀ a ∈ order, a ∉ done := by
  induction h with
  | stop => exact fun _ hmem => absurd hmem List.not_mem_nil
  | step hready _ _ ih =>
    exact List.forall_mem_cons.2
      ⟨hready.fresh, fun b hmem hdone => ih b hmem (List.mem_append_left _ hdone)⟩

theorem nodup (h : LeastFirst nodes edge done order) : order.Nodup := by
  induction h with
  | stop => exact .nil
  | step _ _ hrest ih =>
    exact List.nodup_cons.2 ⟨fun hmem => hrest.not_mem_done _ hmem (by simp), ih⟩

/-- Where the listing ends, whatever is left waits for a parent. -/
theorem not_ready (h : LeastFirst nodes edge done order) :
    ∀ a, ¬ Ready nodes edge (done ++ order) a := by
  induction h with
  | stop hnone => rwa [List.append_nil]
  | step _ _ _ ih => rwa [List.append_assoc, List.singleton_append] at ih

/-- A parent is listed before its child. -/
theorem sublist_of_edge (h : LeastFirst nodes edge done order) (hedge : edge p a)
    (ha : a ∈ order) : p ∈ done ∨ [p, a].Sublist order := by
  induction h with
  | stop => exact absurd ha List.not_mem_nil
  | @step done rest head hready _ _ ih =>
    rcases List.mem_cons.1 ha with rfl | htail
    · exact .inl (hready.parents p hedge)
    rcases ih htail with hdone | hsub
    · rcases List.mem_append.1 hdone with hdone | hhead
      · exact .inl hdone
      · obtain rfl := List.mem_singleton.1 hhead
        exact .inr (List.cons_sublist_cons.2 (List.singleton_sublist.2 htail))
    · exact .inr (hsub.trans (List.sublist_cons_self ..))

theorem not_behindCycle (h : LeastFirst nodes edge done order)
    (hdone : ∀ a ∈ done, ¬ BehindCycle edge a) : ∀ a ∈ order, ¬ BehindCycle edge a := by
  induction h with
  | stop => exact fun _ hmem => absurd hmem List.not_mem_nil
  | @step done rest head hready _ _ ih =>
    have hhead : ¬ BehindCycle edge head := fun hbehind => by
      obtain ⟨p, hedge, hparent⟩ := hbehind.exists_parent
      exact hdone p (hready.parents p hedge) hparent
    refine List.forall_mem_cons.2 ⟨hhead, ih fun a hmem => ?_⟩
    rcases List.mem_append.1 hmem with hmem | hmem
    · exact hdone a hmem
    · rwa [List.mem_singleton.1 hmem]

/-- The whole listing holds exactly the elements that are not behind a cycle. -/
theorem mem_iff (h : LeastFirst nodes edge [] order) (hnodes : nodes.Finite)
    (hclosed : ∀ p a, edge p a → p ∈ nodes) (ha : a ∈ nodes) :
    a ∈ order ↔ ¬ BehindCycle edge a := by
  constructor
  · exact h.not_behindCycle (fun _ hmem => absurd hmem List.not_mem_nil) a
  · intro hfree
    refine of_not_behindCycle (P := (· ∈ order)) hnodes hclosed (fun a ha hparents => ?_) ha hfree
    by_contra hleft
    exact h.not_ready a ⟨ha, hleft, hparents⟩

end LeastFirst

/-! ## Attempts -/

/-- In a log of attempts and their outcomes, the parents of each have succeeded before. -/
def ParentsFirst (edge : α → α → Prop) (log : List (α × Bool)) : Prop :=
  ∀ before a outcome after, log = before ++ (a, outcome) :: after →
    ∀ p, edge p a → (p, true) ∈ before

namespace ParentsFirst

variable {log : List (α × Bool)}

theorem nil : ParentsFirst edge [] := by
  intro before a outcome after h
  simp at h

theorem append (h : ParentsFirst edge log) {outcome : Bool}
    (hparents : ∀ p, edge p a → (p, true) ∈ log) : ParentsFirst edge (log ++ [(a, outcome)]) := by
  intro before b outcome' after heq p hedge
  rcases List.eq_nil_or_concat after with rfl | ⟨after, last, rfl⟩
  · obtain ⟨rfl, hlast⟩ := List.append_inj' heq rfl
    obtain ⟨rfl, -⟩ := Prod.mk.inj (List.singleton_inj.1 hlast)
    exact hparents p hedge
  · rw [List.concat_eq_append, ← List.cons_append, ← List.append_assoc] at heq
    exact h before b outcome' after (List.append_inj' heq rfl).1 p hedge

theorem not_behindCycle (h : ParentsFirst edge log) {outcome : Bool} (hmem : (a, outcome) ∈ log) :
    ¬ BehindCycle edge a := by
  intro hbehind
  obtain ⟨before, after, rfl⟩ := List.append_of_mem hmem
  -- the earliest attempt behind a cycle has an earlier one for a parent
  induction hlength : before.length using Nat.strong_induction_on
    generalizing a outcome before after with
  | _ length ih =>
    obtain ⟨p, hedge, hparent⟩ := hbehind.exists_parent
    have hp := h before a outcome after rfl p hedge
    obtain ⟨front, back, rfl⟩ := List.append_of_mem hp
    rw [List.append_assoc, List.cons_append] at h
    refine ih front.length ?_ hparent front _ h (by simp) rfl
    rw [← hlength, List.length_append, List.length_cons]
    omega

end ParentsFirst

end VizorWallet
