import VizorWallet.Library.Effects

/-!
# Computations on a device that fails

A script says what happens at each access to a device: nothing, an error, the end of the process, or
something else that takes place meanwhile. A change may have landed when its access fails. Errors
can be caught; the end of the process cannot.

## Main definitions

* `Interrupt` — how a computation ends before its time.
* `rescue` — go on after an error.
* `Faulty` — a device, with what happens at the next accesses.
* `access` — one access.
* `always` — how a computation ends whatever happens.
* `calmly` — how it ends when nothing happens.

## Main results

* `wp_rescue`, `wp_forM` — the rules of errors and loops.
* `always_bind`, `always_access`, `always_rescue`, … — the rules of the parts.
-/

namespace VizorWallet

/-- How a computation ends before its time. -/
inductive Interrupt (ε : Type) where
  | thrown (error : ε)
  | killed
  deriving DecidableEq

/-- What happens at an access. -/
inductive Fault (ι : Type) where
  | fails (landed : Bool)
  | killed (landed : Bool)
  | interferes (action : ι)
  deriving DecidableEq

/-- A device, with what happens at the next accesses. -/
structure Faulty (ι σ : Type) where
  device : σ
  script : List (Option (Fault ι))

namespace Effect

variable {ε ι σ α β : Type}

/-- What an ended computation goes on with. -/
def handled (handler : ε → Effect (Interrupt ε) σ α) :
    Except (Interrupt ε) α × σ → Except (Interrupt ε) α × σ
  | (.error (.thrown e), s) => (handler e).run.run s
  | (.error .killed, s) => (.error .killed, s)
  | (.ok a, s) => (.ok a, s)

/-- Go on after an error. -/
def rescue (x : Effect (Interrupt ε) σ α) (handler : ε → Effect (Interrupt ε) σ α) :
    Effect (Interrupt ε) σ α :=
  ExceptT.mk fun s => handled handler (x.run.run s)

/-- The outcome of an access, the device after it, and the rest of the script. -/
def accessRun (act : ι → σ → σ) (error : ε) (f : σ → σ) (s : Faulty ι σ) :
    Except (Interrupt ε) σ × Faulty ι σ :=
  match s.script with
  | [] => (.ok s.device, ⟨f s.device, []⟩)
  | none :: script => (.ok s.device, ⟨f s.device, script⟩)
  | some (.fails landed) :: script =>
    (.error (.thrown error), ⟨if landed then f s.device else s.device, script⟩)
  | some (.killed landed) :: script =>
    (.error .killed, ⟨if landed then f s.device else s.device, script⟩)
  | some (.interferes i) :: script => (.ok (act i s.device), ⟨f (act i s.device), script⟩)

/-- Change the device, and return what it was. -/
def access (act : ι → σ → σ) (error : ε) (f : σ → σ) : Effect (Interrupt ε) (Faulty ι σ) σ :=
  ExceptT.mk (accessRun act error f)

section Rules

variable {ok : α → σ → Prop} {fail : Interrupt ε → σ → Prop} {s : σ}

@[simp] theorem wp_rescue {x : Effect (Interrupt ε) σ α}
    {handler : ε → Effect (Interrupt ε) σ α} :
    wp (rescue x handler) ok fail s ↔
      wp x ok (fun e s' => ∀ error, e = .thrown error → wp (handler error) ok fail s') s ∧
      wp x (fun _ _ => True) (fun e s' => e = .killed → fail .killed s') s := by
  have hrun : (rescue x handler).run.run s = handled handler (x.run.run s) := rfl
  unfold wp
  rw [hrun]
  rcases x.run.run s with ⟨(_ | _) | _, s'⟩
  · simp [handled]
  · simp [handled]
  · simp [handled]

end Rules

/-- Requirements that hold together. -/
theorem wp_and {x : Effect ε σ α} {ok ok' : α → σ → Prop} {fail fail' : ε → σ → Prop} {s : σ}
    (h : wp x ok fail s) (h' : wp x ok' fail' s) :
    wp x (fun a s' => ok a s' ∧ ok' a s') (fun e s' => fail e s' ∧ fail' e s') s := by
  rw [wp_iff] at h h' ⊢
  exact ⟨fun a s' ha => ⟨h.1 a s' ha, h'.1 a s' ha⟩, fun e s' he => ⟨h.2 e s' he, h'.2 e s' he⟩⟩

@[simp] theorem wp_throw {e : ε} {ok : α → σ → Prop} {fail : ε → σ → Prop} {s : σ} :
    wp (throw e : Effect ε σ α) ok fail s ↔ fail e s := Iff.rfl

@[simp] theorem wp_modify {f : σ → σ} {ok : PUnit → σ → Prop} {fail : ε → σ → Prop} {s : σ} :
    wp (modify f : Effect ε σ PUnit) ok fail s ↔ ok ⟨⟩ (f s) := Iff.rfl

/-- What each round of a loop keeps, for the rounds before it, holds at its end. -/
theorem wp_forM {f : α → Effect ε σ PUnit} {ok : PUnit → σ → Prop} {fail : ε → σ → Prop} {s : σ}
    (I : List α → σ → Prop) (xs : List α) (hinit : I [] s)
    (hround : ∀ done x rest s', xs = done ++ x :: rest → I done s' →
      wp (f x) (fun _ s'' => I (done ++ [x]) s'') fail s')
    (hend : ∀ s', I xs s' → ok ⟨⟩ s') : wp (xs.forM f) ok fail s := by
  suffices hloop : ∀ done rest s', xs = done ++ rest → I done s' →
      wp (rest.forM f) (fun _ s'' => I xs s'') fail s' from
    wp_mono (fun _ s' hdone => hend s' hdone) (fun _ _ hfail => hfail) (hloop [] xs s rfl hinit)
  intro done rest
  induction rest generalizing done with
  | nil =>
    intro s' hxs hI
    rw [List.append_nil] at hxs
    exact hxs ▸ hI
  | cons x rest ih =>
    intro s' hxs hI
    change wp (f x >>= fun _ => rest.forM f) _ fail s'
    rw [wp_bind]
    refine wp_mono (fun _ s'' hnext => ?_) (fun _ _ hfail => hfail) (hround done x rest s' hxs hI)
    exact ih (done ++ [x]) s'' (by rw [hxs, List.append_assoc, List.singleton_append]) hnext

/-! ## Computations on devices -/

section Devices

/-- Whatever happens at its accesses, a computation ends as required. -/
def always (x : Effect (Interrupt ε) (Faulty ι σ) α) (ok : α → σ → Prop)
    (fail : Interrupt ε → σ → Prop) (d : σ) : Prop :=
  ∀ script, wp x (fun a s => ok a s.device) (fun e s => fail e s.device) ⟨d, script⟩

/-- When nothing happens at its accesses, a computation succeeds as required. -/
def calmly (x : Effect (Interrupt ε) (Faulty ι σ) α) (ok : α → σ → Prop) (d : σ) : Prop :=
  wp x (fun a s => s.script = [] ∧ ok a s.device) (fun _ _ => False) ⟨d, []⟩

/-- The device of a computation. -/
def device : Effect ε (Faulty ι σ) σ := Faulty.device <$> get

/-- A change of the device that is not an access. -/
def change (f : σ → σ) : Effect ε (Faulty ι σ) PUnit :=
  modify fun s => { s with device := f s.device }

variable {x : Effect (Interrupt ε) (Faulty ι σ) α} {act : ι → σ → σ} {error : ε} {f : σ → σ}
  {ok : α → σ → Prop} {fail : Interrupt ε → σ → Prop} {d : σ}

theorem always_mono {ok' : α → σ → Prop} {fail' : Interrupt ε → σ → Prop}
    (hok : ∀ a d', ok a d' → ok' a d') (hfail : ∀ e d', fail e d' → fail' e d')
    (h : always x ok fail d) : always x ok' fail' d := fun script =>
  wp_mono (fun a s => hok a s.device) (fun e s => hfail e s.device) (h script)

theorem always_pure {a : α} (h : ok a d) :
    always (pure a : Effect (Interrupt ε) (Faulty ι σ) α) ok fail d := fun _ => h

theorem always_bind {g : α → Effect (Interrupt ε) (Faulty ι σ) β} {ok : β → σ → Prop}
    (h : always x (fun a d' => always (g a) ok fail d') fail d) : always (x >>= g) ok fail d :=
  fun script => wp_bind.2 (wp_mono (fun _ s hnext => hnext s.script) (fun _ _ he => he) (h script))

/-- The rule of sequences, from what is known of the first part. -/
theorem always_then {g : α → Effect (Interrupt ε) (Faulty ι σ) β} {ok' : α → σ → Prop}
    {fail' : Interrupt ε → σ → Prop} {ok : β → σ → Prop} (h : always x ok' fail' d)
    (hok : ∀ a d', ok' a d' → always (g a) ok fail d') (hfail : ∀ e d', fail' e d' → fail e d') :
    always (x >>= g) ok fail d := always_bind (always_mono hok hfail h)

theorem always_map {g : α → β} {ok : β → σ → Prop}
    (h : always x (fun a d' => ok (g a) d') fail d) : always (g <$> x) ok fail d :=
  fun script => wp_map.2 (h script)

theorem always_device {ok : σ → σ → Prop} (h : ok d d) :
    always (device : Effect (Interrupt ε) (Faulty ι σ) σ) ok fail d := fun _ => h

theorem always_change {ok : PUnit → σ → Prop} (h : ok ⟨⟩ (f d)) :
    always (change f : Effect (Interrupt ε) (Faulty ι σ) PUnit) ok fail d := fun _ => h

theorem always_throw {e : Interrupt ε} (h : fail e d) :
    always (throw e : Effect (Interrupt ε) (Faulty ι σ) α) ok fail d := fun _ => h

theorem always_outcome {y : Except (Interrupt ε) α} (hok : ∀ a, y = .ok a → ok a d)
    (hfail : ∀ e, y = .error e → fail e d) :
    always (outcome y : Effect (Interrupt ε) (Faulty ι σ) α) ok fail d :=
  fun _ => wp_outcome.2 ⟨hok, hfail⟩

theorem always_require {condition : Prop} [Decidable condition] {e : Interrupt ε}
    {ok : Unit → σ → Prop} (hok : condition → ok () d) (hfail : ¬ condition → fail e d) :
    always (require condition e : Effect (Interrupt ε) (Faulty ι σ) Unit) ok fail d :=
  fun _ => wp_require.2 ⟨hok, hfail⟩

theorem always_rescue {handler : ε → Effect (Interrupt ε) (Faulty ι σ) α}
    (h : always x ok (fun e d' => (∀ error, e = .thrown error →
      always (handler error) ok fail d') ∧ (e = .killed → fail .killed d')) d) :
    always (rescue x handler) ok fail d := by
  refine fun script => wp_rescue.2 ⟨?_, ?_⟩
  · exact wp_mono (fun _ _ ha => ha) (fun e s he error heq => he.1 error heq s.script) (h script)
  · exact wp_mono (fun _ _ _ => trivial) (fun e s he => he.2) (h script)

/-- The rule of sequences, for what both parts keep. -/
theorem always_bind_keep {g : α → Effect (Interrupt ε) (Faulty ι σ) β} {I : σ → Prop}
    {ok : β → σ → Prop} (h : always x (fun _ d' => I d') (fun _ d' => I d') d)
    (hnext : ∀ a d', I d' → always (g a) ok (fun _ d' => I d') d') :
    always (x >>= g) ok (fun _ d' => I d') d := always_then h hnext fun _ _ hI => hI

/-- The rule of errors, for what both parts keep. -/
theorem always_rescue_keep {handler : ε → Effect (Interrupt ε) (Faulty ι σ) α} {I : σ → Prop}
    (h : always x ok (fun _ d' => I d') d)
    (hhandler : ∀ error d', I d' → always (handler error) ok (fun _ d' => I d') d') :
    always (rescue x handler) ok (fun _ d' => I d') d :=
  always_rescue (always_mono (fun _ _ ha => ha)
    (fun _ d' hI => ⟨fun error _ => hhandler error d' hI, fun _ => hI⟩) h)

/-- Whatever happens at an access, it takes place or not, after what interfered. -/
theorem always_access {ok : σ → σ → Prop} (hok : ok d (f d))
    (hact : ∀ i, ok (act i d) (f (act i d))) (hfail : ∀ e, fail e d) (hland : ∀ e, fail e (f d)) :
    always (access act error f) ok fail d := by
  intro script
  have hrun : (access act error f).run.run ⟨d, script⟩ = accessRun act error f ⟨d, script⟩ := rfl
  unfold wp
  rw [hrun]
  rcases script with _ | ⟨_ | ((_ | _) | (_ | _) | i), script⟩
  · exact hok
  · exact hok
  · exact hfail _
  · exact hland _
  · exact hfail _
  · exact hland _
  · exact hact i

/-- The device that a computation leaves. -/
theorem always_run {I : σ → Prop} (h : always x (fun _ d' => I d') (fun _ d' => I d') d)
    (script : List (Option (Fault ι))) : I (x.run.run ⟨d, script⟩).2.device := by
  have hrun := h script
  unfold wp at hrun
  split at hrun
  · next heq => exact heq ▸ hrun
  · next heq => exact heq ▸ hrun

/-- What each round of a loop keeps, for the rounds before it, holds at its end. -/
theorem always_forM {g : β → Effect (Interrupt ε) (Faulty ι σ) PUnit} {ok : PUnit → σ → Prop}
    (I : List β → σ → Prop) (xs : List β) (hinit : I [] d)
    (hround : ∀ done y rest d', xs = done ++ y :: rest → I done d' →
      always (g y) (fun _ d'' => I (done ++ [y]) d'') fail d')
    (hend : ∀ d', I xs d' → ok ⟨⟩ d') : always (xs.forM g) ok fail d :=
  fun _ => wp_forM (fun done s => I done s.device) xs hinit
    (fun done y rest s' hxs hI => hround done y rest s'.device hxs hI s'.script)
    fun s' hI => hend s'.device hI

/-- What always holds at the end of a computation holds at its calm end. -/
theorem calmly_and {ok' : α → σ → Prop} (h : always x ok fail d) (h' : calmly x ok' d) :
    calmly x (fun a d' => ok a d' ∧ ok' a d') d :=
  wp_mono (fun _ _ hand => ⟨hand.2.1, hand.1, hand.2.2⟩) (fun _ _ hand => hand.2)
    (wp_and (h []) h')

theorem calmly_mono {ok' : α → σ → Prop} (hok : ∀ a d', ok a d' → ok' a d')
    (h : calmly x ok d) : calmly x ok' d :=
  wp_mono (fun a s hs => ⟨hs.1, hok a s.device hs.2⟩) (fun _ _ hfalse => hfalse) h

theorem calmly_pure {a : α} (h : ok a d) :
    calmly (pure a : Effect (Interrupt ε) (Faulty ι σ) α) ok d := ⟨rfl, h⟩

theorem calmly_bind {g : α → Effect (Interrupt ε) (Faulty ι σ) β} {ok : β → σ → Prop}
    (h : calmly x (fun a d' => calmly (g a) ok d') d) : calmly (x >>= g) ok d := by
  refine wp_bind.2 (wp_mono (fun a s hs => ?_) (fun _ _ hfalse => hfalse) h)
  obtain ⟨device, script⟩ := s
  obtain ⟨rfl, hnext⟩ := hs
  exact hnext

theorem calmly_map {g : α → β} {ok : β → σ → Prop} (h : calmly x (fun a d' => ok (g a) d') d) :
    calmly (g <$> x) ok d := wp_map.2 h

theorem calmly_device {ok : σ → σ → Prop} (h : ok d d) :
    calmly (device : Effect (Interrupt ε) (Faulty ι σ) σ) ok d := ⟨rfl, h⟩

theorem calmly_change {ok : PUnit → σ → Prop} (h : ok ⟨⟩ (f d)) :
    calmly (change f : Effect (Interrupt ε) (Faulty ι σ) PUnit) ok d := ⟨rfl, h⟩

theorem calmly_outcome {y : Except (Interrupt ε) α} {a : α} (hy : y = .ok a) (h : ok a d) :
    calmly (outcome y : Effect (Interrupt ε) (Faulty ι σ) α) ok d := by
  subst hy
  exact ⟨rfl, h⟩

theorem calmly_require {condition : Prop} [Decidable condition] {e : Interrupt ε}
    {ok : Unit → σ → Prop} (hcondition : condition) (h : ok () d) :
    calmly (require condition e : Effect (Interrupt ε) (Faulty ι σ) Unit) ok d :=
  calmly_outcome (ensure_of e hcondition) h

theorem calmly_rescue {handler : ε → Effect (Interrupt ε) (Faulty ι σ) α} (h : calmly x ok d) :
    calmly (rescue x handler) ok d :=
  wp_rescue.2 ⟨wp_mono (fun _ _ ha => ha) (fun _ _ hfalse => hfalse.elim) h,
    wp_mono (fun _ _ _ => trivial) (fun _ _ hfalse => hfalse.elim) h⟩

theorem calmly_access {ok : σ → σ → Prop} (h : ok d (f d)) : calmly (access act error f) ok d :=
  ⟨rfl, h⟩

theorem calmly_forM {g : β → Effect (Interrupt ε) (Faulty ι σ) PUnit} {ok : PUnit → σ → Prop}
    (I : List β → σ → Prop) (xs : List β) (hinit : I [] d)
    (hround : ∀ done y rest d', xs = done ++ y :: rest → I done d' →
      calmly (g y) (fun _ d'' => I (done ++ [y]) d'') d')
    (hend : ∀ d', I xs d' → ok ⟨⟩ d') : calmly (xs.forM g) ok d := by
  refine wp_forM (fun done s => s.script = [] ∧ I done s.device) xs ⟨rfl, hinit⟩
    (fun done y rest s' hxs hI => ?_) fun s' hI => ⟨hI.1, hend s'.device hI.2⟩
  obtain ⟨device, script⟩ := s'
  obtain ⟨rfl, hI⟩ := hI
  exact hround done y rest device hxs hI

end Devices

end Effect

end VizorWallet
