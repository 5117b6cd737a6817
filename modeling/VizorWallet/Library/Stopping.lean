import Mathlib.Control.Monad.Basic
import Mathlib.Logic.Basic

/-!
# Computations on a state that may stop

A computation that stops early leaves the state it has reached. `Ends m s Q E` says how `m` ends
from `s`: with a value and a state in `Q`, or with a reason to stop and a state in `E`.

## Main definitions

* `Stopping` — computations on a state that may stop.
* `Ends` — what holds at either end of a computation.

## Main results

* `Ends.bind` — the rule of sequences.
* `Ends.forM` — what every round of a loop keeps holds after it.
-/

namespace VizorWallet

variable {ε σ α β : Type}

/-- Computations on states in `σ` that may stop with a reason in `ε`. -/
abbrev Stopping (ε σ : Type) := ExceptT ε (StateM σ)

/-- The end of a computation, and the state it leaves. -/
def Stopping.runFrom (m : Stopping ε σ α) (s : σ) : Except ε α × σ := StateT.run (ExceptT.run m) s

/-- From `s` the computation ends in `Q` or stops in `E`. -/
def Ends (m : Stopping ε σ α) (s : σ) (Q : α → σ → Prop) (E : ε → σ → Prop) : Prop :=
  match m.runFrom s with
  | (.ok a, s') => Q a s'
  | (.error e, s') => E e s'

variable {m : Stopping ε σ α} {f : α → Stopping ε σ β} {s : σ} {Q Q' : α → σ → Prop}
  {R : β → σ → Prop} {E E' : ε → σ → Prop}

theorem ends_pure {a : α} (h : Q a s) : Ends (pure a) s Q E := h

theorem ends_throw {e : ε} (h : E e s) : Ends (throw e) s Q E := h

theorem ends_modify {g : σ → σ} {Q : Unit → σ → Prop} (h : Q () (g s)) :
    Ends (modify g) s Q E := h

theorem ends_get_bind {f : σ → Stopping ε σ β} (h : Ends (f s) s R E) :
    Ends (get >>= f) s R E := h

theorem ends_modify_bind {g : σ → σ} {f : Unit → Stopping ε σ β} (h : Ends (f ()) (g s) R E) :
    Ends (modify g >>= f) s R E := h

theorem ends_throw_bind {e : ε} (h : E e s) : Ends (throw e >>= f) s R E := h

theorem Stopping.runFrom_bind : (m >>= f).runFrom s =
    match m.runFrom s with
    | (.ok a, s') => (f a).runFrom s'
    | (.error e, s') => (.error e, s') := by
  simp only [Stopping.runFrom, ExceptT.run_bind, StateT.run_bind]
  rcases StateT.run (ExceptT.run m) s with ⟨_ | _, _⟩ <;> rfl

/-- A sequence ends as its second part ends from where the first part does. -/
theorem Ends.bind (hm : Ends m s Q E) (hf : ∀ a s', Q a s' → Ends (f a) s' R E) :
    Ends (m >>= f) s R E := by
  unfold Ends at hm ⊢
  rw [Stopping.runFrom_bind]
  rcases hend : m.runFrom s with ⟨e | a, s'⟩ <;> rw [hend] at hm
  · exact hm
  · exact hf a s' hm

theorem Ends.mono (h : Ends m s Q E) (hQ : ∀ a s', Q a s' → Q' a s')
    (hE : ∀ e s', E e s' → E' e s') : Ends m s Q' E' := by
  unfold Ends at h ⊢
  split at h
  · exact hQ _ _ h
  · exact hE _ _ h

/-- What holds at both ends holds of the state that is left. -/
theorem Ends.left {I : σ → Prop} (h : Ends m s (fun _ => I) fun _ => I) : I (m.runFrom s).2 := by
  unfold Ends at h
  split at h <;> next hend => exact hend ▸ h

/-- What every round keeps holds after the loop; `I` may speak of the rounds that are left. -/
theorem Ends.forM {I : List α → σ → Prop} {body : α → Stopping ε σ Unit} {items : List α}
    (hbody : ∀ item rest s', I (item :: rest) s' → Ends (body item) s' (fun _ => I rest) E)
    (hs : I items s) : Ends (items.forM body) s (fun _ => I []) E := by
  induction items generalizing s with
  | nil => exact ends_pure hs
  | cons item rest ih =>
    change Ends (body item >>= fun _ => rest.forM body) s _ E
    exact (hbody item rest s hs).bind fun _ s' => ih

end VizorWallet
