import Mathlib.Logic.Basic
import VizorWallet.Library.Outcome

/-!
# Computations with a state that may fail

What a computation changes stays changed when it fails later. Its weakest precondition has one
condition for success and one for failure, and is computed from the rules of its parts.

## Main definitions

* `Effect` — computations that keep their state when they fail.
* `Effect.wp` — what has to hold before a computation, so that it ends as required.

## Main results

* `Effect.wp_bind`, `Effect.wp_require`, `Effect.wp_outcome` — the rules of the parts.
* `Effect.wp_mono` — weaker requirements.
-/

namespace VizorWallet

/-- A computation that may fail, with a state. -/
abbrev Effect (ε σ α : Type) := ExceptT ε (StateM σ) α

namespace Effect

variable {ε σ α β : Type}

/-- The computation ends, and its result and state are as required. -/
def wp (x : Effect ε σ α) (ok : α → σ → Prop) (fail : ε → σ → Prop) (s : σ) : Prop :=
  match x.run.run s with
  | (.ok a, s') => ok a s'
  | (.error e, s') => fail e s'

/-- Go on with the value of an outcome. -/
def outcome (x : Except ε α) : Effect ε σ α := ExceptT.mk (pure x)

/-- Go on if a condition holds. -/
def require (condition : Prop) [Decidable condition] (error : ε) : Effect ε σ Unit :=
  outcome (ensure condition error)

variable {ok : α → σ → Prop} {fail : ε → σ → Prop} {s : σ}

@[simp] theorem wp_pure {a : α} : wp (pure a : Effect ε σ α) ok fail s ↔ ok a s := Iff.rfl

@[simp] theorem wp_outcome {x : Except ε α} :
    wp (outcome x) ok fail s ↔
      (∀ a, x = .ok a → ok a s) ∧ ∀ e, x = .error e → fail e s := by
  cases x with
  | error e =>
    change fail e s ↔ _
    simp
  | ok a =>
    change ok a s ↔ _
    simp

@[simp] theorem wp_require {condition : Prop} [Decidable condition] {error : ε}
    {ok : Unit → σ → Prop} :
    wp (require condition error) ok fail s ↔
      (condition → ok () s) ∧ (¬ condition → fail error s) := by
  unfold require ensure
  split_ifs with h
  · exact ⟨fun hok => ⟨fun _ => hok, fun hnot => absurd h hnot⟩, fun hok => hok.1 h⟩
  · exact ⟨fun hfail => ⟨fun hok => absurd hok h, fun _ => hfail⟩, fun hfail => hfail.2 h⟩

@[simp] theorem wp_get {ok : σ → σ → Prop} : wp (get : Effect ε σ σ) ok fail s ↔ ok s s := Iff.rfl

@[simp] theorem wp_set {s' : σ} {ok : PUnit → σ → Prop} :
    wp (set s' : Effect ε σ PUnit) ok fail s ↔ ok ⟨⟩ s' := Iff.rfl

/-- A sequence ends as required when its first part ends so that its second part does. -/
@[simp] theorem wp_bind {x : Effect ε σ α} {f : α → Effect ε σ β} {ok : β → σ → Prop} :
    wp (x >>= f) ok fail s ↔ wp x (fun a s' => wp (f a) ok fail s') fail s := by
  have hrun : (x >>= f).run.run s = match x.run.run s with
      | (.ok a, s') => (f a).run.run s'
      | (.error e, s') => (.error e, s') := by
    rw [ExceptT.run_bind, StateT.run_bind]
    change (match (x.run.run s).1 with
      | .ok a => (f a).run
      | .error e => pure (.error e)).run (x.run.run s).2 = _
    rcases x.run.run s with ⟨_ | _, s'⟩ <;> rfl
  rw [wp, hrun, wp]
  rcases x.run.run s with ⟨_ | _, s'⟩ <;> rfl

@[simp] theorem wp_map {f : α → β} {x : Effect ε σ α} {ok : β → σ → Prop} :
    wp (f <$> x) ok fail s ↔ wp x (fun a s' => ok (f a) s') fail s := by
  rw [map_eq_pure_bind, wp_bind]
  rfl

@[simp] theorem wp_ite {condition : Prop} [Decidable condition] {x y : Effect ε σ α} :
    wp (if condition then x else y) ok fail s ↔
      (condition → wp x ok fail s) ∧ (¬ condition → wp y ok fail s) := by
  split_ifs with h <;> simp [h]

theorem wp_mono {x : Effect ε σ α} {ok' : α → σ → Prop} {fail' : ε → σ → Prop}
    (hok : ∀ a s', ok a s' → ok' a s') (hfail : ∀ e s', fail e s' → fail' e s')
    (h : wp x ok fail s) : wp x ok' fail' s := by
  unfold wp at h ⊢
  split at h
  · exact hok _ _ h
  · exact hfail _ _ h

/-- What a computation ends in. -/
theorem wp_iff {x : Effect ε σ α} :
    wp x ok fail s ↔ (∀ a s', x.run.run s = (.ok a, s') → ok a s') ∧
      ∀ e s', x.run.run s = (.error e, s') → fail e s' := by
  unfold wp
  rcases x.run.run s with ⟨_ | _, s'⟩
  · exact ⟨fun h => ⟨nofun, fun e _ heq => by cases heq; exact h⟩, fun h => h.2 _ _ rfl⟩
  · exact ⟨fun h => ⟨fun a _ heq => by cases heq; exact h, nofun⟩, fun h => h.1 _ _ rfl⟩

end Effect

end VizorWallet
