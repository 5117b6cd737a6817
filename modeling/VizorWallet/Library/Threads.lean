import VizorWallet.Library.Transition
import Mathlib.Data.Nat.Notation
import Mathlib.Logic.Function.Basic

/-!
# Threads with a shared state

Threads take steps in any order. An outline says what holds of the shared state, and what each
thread knows of it where it stands. It holds throughout when a step keeps it for the thread that
takes the step, and takes nothing away from what the others know.

## Main definitions

* `Threads` — a shared state and where each thread stands.
* `Threads.system` — the runs in which one thread after another takes a step.
* `Outline` — what holds, and what each thread knows.
* `Outline.Kept` — what a step has to show.

## Main results

* `Outline.holds_of_reaches` — an outline whose steps are kept holds in every reached state.
-/

namespace VizorWallet

variable {σ τ ι : Type*}

/-- A shared state, and where each thread stands. -/
structure Threads (σ τ : Type*) where
  shared : σ
  thread : ℕ → τ

namespace Threads

/-- A step of one thread, which it may not be able to take. -/
def advance (step : ℕ → ι → σ → τ → Option (σ × τ)) (world : Threads σ τ) (event : ℕ × ι) :
    Option (Threads σ τ) :=
  (step event.1 event.2 world.shared (world.thread event.1)).map fun next =>
    ⟨next.1, Function.update world.thread event.1 next.2⟩

/-- Every thread starts at the same place. -/
def system (init : σ) (idle : τ) (step : ℕ → ι → σ → τ → Option (σ × τ)) :
    Transition (Threads σ τ) (ℕ × ι) :=
  ⟨⟨init, fun _ => idle⟩, advance step⟩

variable {step : ℕ → ι → σ → τ → Option (σ × τ)} {world world' : Threads σ τ}

/-- A step of a thread leaves the others where they stand. -/
theorem thread_of_advance {event : ℕ × ι} {i : ℕ} (hi : i ≠ event.1)
    (h : advance step world event = some world') : world'.thread i = world.thread i := by
  obtain ⟨next, -, rfl⟩ := Option.map_eq_some_iff.1 h
  exact Function.update_of_ne hi _ _

/-- A thread that takes no step of a run stays where it stands. -/
theorem thread_of_run {init : σ} {idle : τ} {events : List (ℕ × ι)} {i : ℕ}
    (hi : ∀ event ∈ events, i ≠ event.1)
    (h : (system init idle step).run world events = some world') :
    world'.thread i = world.thread i := by
  induction events generalizing world with
  | nil =>
    obtain rfl := Option.some.inj h
    rfl
  | cons event events ih =>
    obtain ⟨middle, hstep, hrest⟩ := Option.bind_eq_some_iff.1 h
    rw [ih (fun e he => hi e (List.mem_cons_of_mem event he)) hrest]
    exact thread_of_advance (hi event List.mem_cons_self) hstep

end Threads

/-- What holds of a shared state, and what a thread knows of it. -/
structure Outline (σ τ : Type*) where
  invariant : σ → Prop
  known : ℕ → σ → τ → Prop

namespace Outline

variable (O : Outline σ τ)

structure Holds (world : Threads σ τ) : Prop where
  invariant : O.invariant world.shared
  known : ∀ i, O.known i world.shared (world.thread i)

/-- A step of a thread keeps the outline, and what the other threads know. -/
structure Kept (i : ℕ) (s s' : σ) (t' : τ) : Prop where
  invariant : O.invariant s'
  own : O.known i s' t'
  others : ∀ j u, j ≠ i → O.known j s u → O.known j s' u

variable {O} {step : ℕ → ι → σ → τ → Option (σ × τ)} {world world' : Threads σ τ}

theorem Holds.advance {event : ℕ × ι} (h : O.Holds world)
    (hkept : ∀ s' t', step event.1 event.2 world.shared (world.thread event.1) = some (s', t') →
      O.Kept event.1 world.shared s' t')
    (hstep : Threads.advance step world event = some world') : O.Holds world' := by
  obtain ⟨⟨s', t'⟩, hnext, rfl⟩ := Option.map_eq_some_iff.1 hstep
  have hkeep := hkept s' t' hnext
  refine ⟨hkeep.invariant, fun j => ?_⟩
  by_cases hj : j = event.1
  · subst hj
    simpa only [Function.update_self] using hkeep.own
  · simpa only [Function.update_of_ne hj] using hkeep.others j _ hj (h.known j)

/-- An outline whose steps are kept holds in every reached state. -/
theorem holds_of_reaches {init : σ} {idle : τ} {ok : Threads σ τ → ℕ × ι → Prop}
    (hinit : O.invariant init) (hidle : ∀ i, O.known i init idle)
    (hkept : ∀ (w : Threads σ τ) (event : ℕ × ι) s' t', O.Holds w → ok w event →
      step event.1 event.2 w.shared (w.thread event.1) = some (s', t') →
      O.Kept event.1 w.shared s' t')
    (h : (Threads.system init idle step).Reaches ok world) : O.Holds world := by
  refine h.invariant ⟨hinit, hidle⟩ fun w event w' hw hok hstep => ?_
  exact hw.advance (fun s' t' hnext => hkept w event s' t' hw hok hnext) hstep

end Outline

end VizorWallet
