import Mathlib.Data.List.Forall2

/-!
# Computations that may fail

Rules to take a successful computation in `Except` apart: a sequence succeeds when each of its
steps does.
-/

namespace VizorWallet

universe u

variable {ε : Type*} {α β : Type u}

/-- `ok_or`: the value of an option, or an error. -/
def orError (value : Option α) (error : ε) : Except ε α :=
  value.elim (.error error) .ok

/-- Fail with an error unless a condition holds. -/
def ensure (condition : Prop) [Decidable condition] (error : ε) : Except ε Unit :=
  if condition then .ok () else .error error

@[simp] theorem orError_eq_ok {value : Option α} {error : ε} {a : α} :
    orError value error = .ok a ↔ value = some a := by
  cases value <;> simp [orError]

@[simp] theorem orError_some {error : ε} (a : α) : orError (some a) error = .ok a := rfl

@[simp] theorem ensure_eq_ok {condition : Prop} [Decidable condition] {error : ε} {u : Unit} :
    ensure condition error = .ok u ↔ condition := by
  unfold ensure
  split_ifs with h <;> simp [h]

theorem ensure_of {condition : Prop} [Decidable condition] (error : ε) (h : condition) :
    ensure condition error = .ok () :=
  if_pos h

@[simp] theorem bind_eq_ok {x : Except ε α} {f : α → Except ε β} {b : β} :
    (x >>= f) = .ok b ↔ ∃ a, x = .ok a ∧ f a = .ok b := by
  cases x with
  | error e => simp [bind, Except.bind]
  | ok a => simp [bind, Except.bind]

theorem bind_eq_error {x : Except ε α} {f : α → Except ε β} {e : ε} :
    (x >>= f) = .error e ↔ x = .error e ∨ ∃ a, x = .ok a ∧ f a = .error e := by
  cases x with
  | error e' => simp [bind, Except.bind]
  | ok a => simp [bind, Except.bind]

theorem ensure_eq_error {condition : Prop} [Decidable condition] {error e : ε} :
    ensure condition error = .error e ↔ ¬ condition ∧ error = e := by
  unfold ensure
  split_ifs with h <;> simp [h]

@[simp] theorem ok_bind (a : α) (f : α → Except ε β) : ((.ok a : Except ε α) >>= f) = f a := rfl

theorem bind_eq_some {x : Option α} {f : α → Option β} {b : β} :
    (x >>= f) = some b ↔ ∃ a, x = some a ∧ f a = some b :=
  Option.bind_eq_some_iff

@[simp] theorem pure_eq_ok {a b : α} : (pure a : Except ε α) = .ok b ↔ a = b := by
  simp [pure, Except.pure]

@[simp] theorem map_eq_ok {x : Except ε α} {f : α → β} {b : β} :
    (f <$> x) = .ok b ↔ ∃ a, x = .ok a ∧ f a = b := by
  cases x <;> simp [Functor.map, Except.map]

@[simp] theorem mapError_eq_ok {ε' : Type*} {x : Except ε α} {f : ε → ε'} {a : α} :
    x.mapError f = .ok a ↔ x = .ok a := by
  cases x <;> simp [Except.mapError]

/-- A traversal that succeeds does so on every element. -/
theorem mapM_eq_ok {f : α → Except ε β} {l : List α} {r : List β} :
    l.mapM f = .ok r ↔ List.Forall₂ (fun a b => f a = .ok b) l r := by
  induction l generalizing r with
  | nil =>
    rw [List.mapM_nil, pure_eq_ok, List.forall₂_nil_left_iff, eq_comm]
  | cons a rest ih =>
    simp only [List.mapM_cons, bind_eq_ok, pure_eq_ok, ih, List.forall₂_cons_left_iff]
    grind

/-- A traversal that fails does so on an element. -/
theorem exists_of_mapM_eq_error {f : α → Except ε β} {l : List α} {e : ε}
    (h : l.mapM f = .error e) : ∃ a ∈ l, f a = .error e := by
  induction l with
  | nil => cases h
  | cons a rest ih =>
    rw [List.mapM_cons] at h
    obtain hhead | ⟨b, -, htail⟩ := bind_eq_error.1 h
    · exact ⟨a, List.mem_cons_self, hhead⟩
    · obtain hrest | ⟨bs, -, hend⟩ := bind_eq_error.1 htail
      · obtain ⟨c, hc, herror⟩ := ih hrest
        exact ⟨c, List.mem_cons_of_mem a hc, herror⟩
      · cases hend

/-- A loop succeeds when every round does. -/
theorem forM_eq_ok {α : Type*} {f : α → Except ε Unit} {l : List α} :
    l.forM f = .ok () ↔ ∀ a ∈ l, f a = .ok () := by
  induction l with
  | nil => simp
  | cons a rest ih =>
    rw [List.forall_mem_cons, ← ih]
    show (f a >>= fun _ => rest.forM f) = .ok () ↔ _
    rw [bind_eq_ok]
    exact ⟨fun ⟨(), h⟩ => h, fun h => ⟨(), h⟩⟩

/-- What every round keeps holds after a loop that succeeds. -/
theorem foldlM_invariant {σ ι : Type*} {ε : Type*} {f : σ → ι → Except ε σ} {I : σ → Prop}
    {l : List ι} {s s' : σ} (hstep : ∀ s e s', e ∈ l → I s → f s e = .ok s' → I s') (hs : I s)
    (h : l.foldlM f s = .ok s') : I s' := by
  induction l generalizing s with
  | nil =>
    obtain rfl := pure_eq_ok.1 h
    exact hs
  | cons e l ih =>
    rw [List.foldlM_cons, bind_eq_ok] at h
    obtain ⟨m, hm, hrest⟩ := h
    exact ih (fun s e' s' he' => hstep s e' s' (List.mem_cons_of_mem e he'))
      (hstep s e m List.mem_cons_self hs hm) hrest

/-- A loop that fails does so in a round. -/
theorem exists_of_foldlM_eq_error {σ ι ε : Type*} {f : σ → ι → Except ε σ} {l : List ι} {s : σ}
    {e : ε} (h : l.foldlM f s = .error e) : ∃ s', ∃ a ∈ l, f s' a = .error e := by
  induction l generalizing s with
  | nil => cases h
  | cons a rest ih =>
    rw [List.foldlM_cons] at h
    obtain hhead | ⟨middle, -, htail⟩ := bind_eq_error.1 h
    · exact ⟨s, a, List.mem_cons_self, hhead⟩
    · obtain ⟨s', b, hb, herror⟩ := ih htail
      exact ⟨s', b, List.mem_cons_of_mem a hb, herror⟩

/-- A traversal by an optional function succeeds when the function is defined on every element. -/
theorem mapM_orError_eq_ok {g : α → Option β} {error : ε} {l : List α} {r : List β} :
    (l.mapM fun a => orError (g a) error) = .ok r ↔ l.map g = r.map some := by
  simp only [mapM_eq_ok, orError_eq_ok]
  rw [← List.forall₂_eq_eq_eq, List.forall₂_map_left_iff, List.forall₂_map_right_iff]

end VizorWallet
