import Mathlib.Logic.Relation
import Mathlib.Tactic.SplitIfs

/-!
# Transition systems

A system is an initial state and a partial step function. Conditions on steps restrict its runs,
and an invariant of the restricted runs needs one proof for one step.

## Main definitions

* `Transition` — an initial state and a guarded, executable step.
* `Transition.Reaches` — the states that runs of admissible steps reach.
* `history` — the steps of a run of a total system, with the states before them.

## Main results

* `Transition.Reaches.invariant` — what every admissible step keeps holds in every reached state.
* `forall_history`, `pairwise_history` — what holds before every step, and between two steps.
* `countP_history_le_one` — a step that closes a latch is taken once.
-/

namespace VizorWallet

/-- An initial state and a step that an event may refuse. -/
structure Transition (σ ι : Type*) where
  init : σ
  step : σ → ι → Option σ

namespace Transition

variable {σ ι : Type*} (T : Transition σ ι) (ok : σ → ι → Prop)

/-- The states that runs of admissible steps reach. -/
inductive Reaches : σ → Prop
  | init : Reaches T.init
  | step {s s' : σ} {e : ι} (h : Reaches s) (hok : ok s e) (hstep : T.step s e = some s') :
    Reaches s'

/-- The states that runs reach. -/
def Reachable : σ → Prop := T.Reaches fun _ _ => True

/-- A run of several events. -/
def run (s : σ) (events : List ι) : Option σ := events.foldlM T.step s

/-- A run of several events, as long as each is admissible. -/
def runWhile [∀ s e, Decidable (ok s e)] (s : σ) (events : List ι) : Option σ :=
  events.foldlM (fun s e => if ok s e then T.step s e else none) s

variable {T ok}

/-- What every admissible step keeps holds in every reached state. -/
theorem Reaches.invariant {I : σ → Prop} (hinit : I T.init)
    (hstep : ∀ s e s', I s → ok s e → T.step s e = some s' → I s') {s : σ} (h : T.Reaches ok s) :
    I s := by
  induction h with
  | init => exact hinit
  | step _ hok hs ih => exact hstep _ _ _ ih hok hs

theorem Reaches.mono {ok' : σ → ι → Prop} (hle : ∀ s e, ok s e → ok' s e) {s : σ}
    (h : T.Reaches ok s) : T.Reaches ok' s := by
  induction h with
  | init => exact .init
  | step _ hok hs ih => exact ih.step (hle _ _ hok) hs

theorem Reaches.reachable {s : σ} (h : T.Reaches ok s) : T.Reachable s :=
  h.mono fun _ _ _ => trivial

/-- Runs of events that are admissible everywhere. -/
theorem Reaches.run {s s' : σ} {events : List ι} (h : T.Reaches ok s)
    (hok : ∀ e ∈ events, ∀ s, ok s e) (hrun : T.run s events = some s') : T.Reaches ok s' := by
  induction events generalizing s with
  | nil =>
    obtain rfl := Option.some.inj hrun
    exact h
  | cons e events ih =>
    obtain ⟨m, hm, hrest⟩ := Option.bind_eq_some_iff.1 hrun
    refine ih (h.step (hok e List.mem_cons_self s) hm) (fun e' he' => ?_) hrest
    exact hok e' (List.mem_cons_of_mem e he')

theorem Reaches.runWhile [∀ s e, Decidable (ok s e)] {s s' : σ} {events : List ι}
    (h : T.Reaches ok s) (hrun : T.runWhile ok s events = some s') : T.Reaches ok s' := by
  induction events generalizing s with
  | nil =>
    obtain rfl := Option.some.inj hrun
    exact h
  | cons e events ih =>
    obtain ⟨m, hm, hrest⟩ := Option.bind_eq_some_iff.1 hrun
    dsimp only at hm
    split_ifs at hm with hok
    exact ih (h.step hok hm) hrest

/-- A run from a reachable state ends in a reachable state. -/
theorem Reachable.run {s s' : σ} {events : List ι} (h : T.Reachable s)
    (hrun : T.run s events = some s') : T.Reachable s' :=
  Reaches.run h (fun _ _ _ => trivial) hrun

/-- A run whose last state is as it should be reaches such a state. -/
theorem exists_reachable (T : Transition σ ι) (events : List ι) (p : σ → Bool)
    (h : (T.run T.init events).any p) : ∃ s, T.Reachable s ∧ p s := by
  obtain ⟨s, hrun, hp⟩ := (Option.any_eq_true _ _).1 h
  exact ⟨s, Reachable.run .init hrun, hp⟩

end Transition

/-! ## Histories -/

section History

variable {σ ι : Type*} {step : σ → ι → σ}

/-- The steps that a run takes, each with the state before it. -/
def history (step : σ → ι → σ) : σ → List ι → List (σ × ι)
  | _, [] => []
  | s, e :: events => (s, e) :: history step (step s e) events

/-- What every step keeps holds before every step of a run, and what only grows has grown. -/
theorem forall_history {I : σ → Prop} {Q : σ → σ → Prop} (hrefl : ∀ s, Q s s)
    (htrans : ∀ s m s', Q s m → Q m s' → Q s s') (hkeep : ∀ s e, I s → I (step s e))
    (hgrow : ∀ s e, I s → Q s (step s e)) {s : σ} (h : I s) (events : List ι) :
    ∀ entry ∈ history step s events, I entry.1 ∧ Q s entry.1 := by
  induction events generalizing s with
  | nil => exact nofun
  | cons e events ih =>
    intro entry hentry
    obtain rfl | hrest := List.mem_cons.1 hentry
    · exact ⟨h, hrefl s⟩
    · obtain ⟨hinv, hgrown⟩ := ih (hkeep s e h) entry hrest
      exact ⟨hinv, htrans s _ _ (hgrow s e h) hgrown⟩

/-- Two steps of a run, of which the later one starts in a state that has grown. -/
theorem pairwise_history {I : σ → Prop} {Q : σ → σ → Prop} {R : σ × ι → σ × ι → Prop}
    (hrefl : ∀ s, Q s s) (htrans : ∀ s m s', Q s m → Q m s' → Q s s')
    (hkeep : ∀ s e, I s → I (step s e)) (hgrow : ∀ s e, I s → Q s (step s e))
    (hpair : ∀ s e s' e', I s → I s' → Q (step s e) s' → R (s, e) (s', e')) {s : σ} (h : I s)
    (events : List ι) : (history step s events).Pairwise R := by
  induction events generalizing s with
  | nil => exact List.Pairwise.nil
  | cons e events ih =>
    refine List.Pairwise.cons (fun entry hentry => ?_) (ih (hkeep s e h))
    obtain ⟨hinv, hgrown⟩ :=
      forall_history hrefl htrans hkeep hgrow (hkeep s e h) events entry hentry
    exact hpair s e entry.1 entry.2 h hinv hgrown

/-- A latch that is closed and stays closed, with the steps that it blocks. -/
theorem countP_history_eq_zero {closed : σ → Prop} {fires : σ × ι → Bool}
    (hkeep : ∀ s e, closed s → closed (step s e)) (hblock : ∀ s e, closed s → fires (s, e) = false)
    {s : σ} (h : closed s) (events : List ι) : (history step s events).countP fires = 0 := by
  induction events generalizing s with
  | nil => rfl
  | cons e events ih => simp [history, hblock s e h, ih (hkeep s e h)]

/-- A step that closes the latch is taken at most once. -/
theorem countP_history_le_one {closed : σ → Prop} {fires : σ × ι → Bool}
    (hkeep : ∀ s e, closed s → closed (step s e)) (hblock : ∀ s e, closed s → fires (s, e) = false)
    (hlatch : ∀ s e, fires (s, e) → closed (step s e)) (s : σ) (events : List ι) :
    (history step s events).countP fires ≤ 1 := by
  induction events generalizing s with
  | nil => exact Nat.zero_le 1
  | cons e events ih =>
    rw [history, List.countP_cons]
    split_ifs with hfires
    · have hzero := countP_history_eq_zero hkeep hblock (hlatch s e hfires) events
      omega
    · exact ih (step s e)

end History

end VizorWallet
