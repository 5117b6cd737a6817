import VizorWallet.Library.Processes
import VizorWallet.Migration.Locks.Reconcile

/-!
# Convergence of the wallet locks

When every operation on a run has returned, the locks of its owner agree with its phase, provided
that each input of a stage that is discarded while it is locked, or locked after it was discarded,
is in the snapshot of a loop that will still unlock it.

## Main definitions

* `Agrees` — the locks agree with the phase.
* `StrandsNothing` — the condition on the cleanup of a stop, and on what a loop locks.

## Main results

* `Coherent.step` — the invariant of an interleaving.
* `locks_converge` — the locks agree with the phase once all operations have returned.
-/

namespace VizorWallet.Migration.Locks

/-- An ended run holds no lock; any other has locked its spendable candidates. -/
def Agrees (wallet : Wallet) (s : State) : Prop :=
  if s.phase.releasesWalletLocks then s.locked = ∅
  else ∀ output ∈ s.candidates, wallet.spendable output → output ∈ s.locked

/-- What a loop is about to unlock, since the run had ended when it looked. -/
def Pc.aboutToUnlock : Pc → Finset Outpoint
  | .apply _ true candidates => candidates
  | _ => ∅

/-- A loop will still unlock the output. -/
def State.WillUnlock (s : State) (output : Outpoint) : Prop :=
  ∃ process ∈ s.processes, output ∈ process.pc.aboutToUnlock

/-- The outputs that are no longer candidates after an event but locked: those that a cleanup
discards, and those that a loop locks from an older snapshot. -/
def Event.strands (wallet : Wallet) (s : State) : Event → Finset Outpoint
  | .advance i =>
    match (s.processes[i]?).map Process.pc with
    | some .cleanup => (s.candidates \ s.discardUnsubmitted.candidates) ∩ s.locked
    | some (.apply _ false candidates) =>
      (candidates.filter fun output => wallet.spendable output) \ s.candidates
    | _ => ∅
  | _ => ∅

/-- What an event strands will be unlocked by a loop. -/
def StrandsNothing (wallet : Wallet) (s : State) (e : Event) : Prop :=
  ∀ output ∈ e.strands wallet s, s.WillUnlock output

instance (s : State) (output : Outpoint) : Decidable (s.WillUnlock output) :=
  inferInstanceAs (Decidable (∃ process ∈ s.processes, output ∈ process.pc.aboutToUnlock))

instance (wallet : Wallet) (s : State) (e : Event) : Decidable (StrandsNothing wallet s e) :=
  inferInstanceAs (Decidable (∀ output ∈ _, _))

/-! ## What one transaction does -/

/-- The operation will still bring the locks in line with a phase that releases them, or not. -/
def Pc.Responsible (release : Bool) : Pc → Prop
  | .ready | .commit _ | .snapshot _ | .failed => True
  | .apply _ releaseLocks _ => releaseLocks = release
  | .recheck _ releaseLocks => releaseLocks ≠ release
  | .cleanup | .returned => False

/-- The operation will still unlock the output, or has failed. -/
def Pc.Excuses (output : Outpoint) (pc : Pc) : Prop :=
  pc = .failed ∨ output ∈ pc.aboutToUnlock

@[simp] theorem excuses_apply {output : Outpoint} {round : ℕ} {releaseLocks : Bool}
    {candidates : Finset Outpoint} : (Pc.apply round releaseLocks candidates).Excuses output ↔
      releaseLocks = true ∧ output ∈ candidates := by
  cases releaseLocks <;> simp [Pc.Excuses, Pc.aboutToUnlock]

theorem Pc.Excuses.responsible {output : Outpoint} {pc : Pc} (h : pc.Excuses output) :
    pc.Responsible true := by
  cases pc with
  | apply round releaseLocks candidates => exact (excuses_apply.1 h).1
  | failed => trivial
  | _ => simp [Pc.Excuses, Pc.aboutToUnlock] at h

/-- The transactions of an operation: a turn to a new reconciliation, or the parts of one. -/
inductive Move (wallet : Wallet) (s : State) : Pc → State → Pc → Prop
  | turn {pc pc' : Pc} (phase : Phase) (hpc : ∀ output, ¬ pc.Excuses output)
    (hpc' : ∀ release, pc'.Responsible release) :
    Move wallet s pc { s with phase := phase } pc'
  | read (round : ℕ) :
    Move wallet s (.snapshot round) s (.apply round s.phase.releasesWalletLocks s.candidates)
  | unlock (round : ℕ) (candidates : Finset Outpoint) :
    Move wallet s (.apply round true candidates) (s.unlockOutputs candidates)
      (.recheck round true)
  | lock (round : ℕ) (candidates : Finset Outpoint) :
    Move wallet s (.apply round false candidates) (s.lockOutputs wallet candidates)
      (.recheck round false)
  | leave {pc' : Pc} (round : ℕ) (hpc : pc' = .cleanup ∨ pc' = .returned) :
    Move wallet s (.recheck round s.phase.releasesWalletLocks) s pc'
  | discard : Move wallet s .cleanup s.discardUnsubmitted .returned

theorem move_of_advance {wallet : Wallet} {s s' : State} {op : Op} {pc pc' : Pc}
    (h : advance wallet s op pc = some (s', pc')) : Move wallet s pc s' pc' := by
  have hturn (hs : s' = s) (hpc : ∀ output, ¬ pc.Excuses output)
      (hpc' : ∀ release, pc'.Responsible release) : Move wallet s pc s' pc' := by
    subst hs
    exact .turn s'.phase hpc hpc'
  cases pc with
  | ready =>
    have hpc : ∀ output, ¬ Pc.ready.Excuses output := by simp [Pc.Excuses, Pc.aboutToUnlock]
    cases op with
    | reconcile =>
      cases h
      exact hturn rfl hpc fun _ => trivial
    | abandon =>
      simp only [advance] at h
      split_ifs at h <;> cases h <;> exact hturn rfl hpc fun _ => trivial
    | retire =>
      cases h
      exact .turn _ hpc fun _ => trivial
    | complete =>
      cases h
      exact .turn _ hpc fun _ => trivial
    | recover =>
      cases h
      exact .turn _ hpc fun _ => trivial
  | commit read =>
    have hpc : ∀ output, ¬ (Pc.commit read).Excuses output := by
      simp [Pc.Excuses, Pc.aboutToUnlock]
    simp only [advance] at h
    split_ifs at h <;> cases h
    · exact .turn _ hpc fun _ => trivial
    · exact hturn rfl hpc fun _ => trivial
  | snapshot round =>
    cases h
    exact .read round
  | apply round releaseLocks candidates =>
    cases h
    cases releaseLocks with
    | true => exact .unlock round candidates
    | false => exact .lock round candidates
  | recheck round releaseLocks =>
    have hpc : ∀ output, ¬ (Pc.recheck round releaseLocks).Excuses output := by
      simp [Pc.Excuses, Pc.aboutToUnlock]
    simp only [advance] at h
    split_ifs at h with hstable <;> cases h
    · exact hstable ▸ .leave round (.inl rfl)
    · exact hstable ▸ .leave round (.inr rfl)
    · exact hturn rfl hpc fun _ => trivial
    · exact hturn rfl hpc fun _ => trivial
  | cleanup =>
    cases h
    exact .discard
  | returned => cases h
  | failed => cases h

/-! ## Invariant -/

theorem mem_candidates {s : State} {output : Outpoint} : output ∈ s.candidates ↔
    output ∈ s.preparedNotes ∨ ∃ stage ∈ s.stages, output ∈ stage.inputs := by
  unfold State.candidates
  induction s.stages with
  | nil => simp
  | cons stage rest ih =>
    rw [List.foldr_cons, Finset.mem_union, ih]
    simp only [List.exists_mem_cons_iff]
    tauto

theorem discardUnsubmitted_candidates (s : State) :
    s.discardUnsubmitted.candidates ⊆ s.candidates := by
  intro output houtput
  rw [mem_candidates] at houtput ⊢
  refine houtput.imp_right fun ⟨stage, hstage, hinput⟩ => ⟨stage, ?_, hinput⟩
  exact (List.mem_filter.1 hstage).1

/-- Some operation excuses that the output is locked. -/
def State.Excused (s : State) (output : Outpoint) : Prop :=
  ∃ process ∈ s.processes, process.pc.Excuses output

theorem State.WillUnlock.excused {s : State} {output : Outpoint} (h : s.WillUnlock output) :
    s.Excused output :=
  h.imp fun _ hprocess => hprocess.imp_right .inr

/-- What holds of a run and its operations in every interleaving. -/
structure Coherent (wallet : Wallet) (s : State) : Prop where
  locked : ∀ output ∈ s.locked, output ∈ s.candidates ∨ s.Excused output
  /-- Candidates are only ever discarded, so a loop knows them all. -/
  known : ∀ process ∈ s.processes, ∀ round releaseLocks candidates,
    process.pc = .apply round releaseLocks candidates → s.candidates ⊆ candidates
  pending : Agrees wallet s ∨
    ∃ process ∈ s.processes, process.pc.Responsible s.phase.releasesWalletLocks

theorem not_apply_of_responsible {pc : Pc} (h : ∀ release, pc.Responsible release) {round : ℕ}
    {releaseLocks : Bool} {candidates : Finset Outpoint} :
    pc ≠ .apply round releaseLocks candidates := by
  rintro rfl
  have htrue : releaseLocks = true := h true
  have hfalse : releaseLocks = false := h false
  simp [htrue] at hfalse

section Move

variable {wallet : Wallet} {s s' : State} {i : ℕ} {op : Op} {pc pc' : Pc} {output : Outpoint}

/-- The other operations still excuse what they did. -/
theorem excused_set (hi : s.processes[i]? = some ⟨op, pc⟩) (hpc : ¬ pc.Excuses output)
    (h : s.Excused output) :
    ∃ process ∈ s.processes.set i ⟨op, pc'⟩, process.pc.Excuses output :=
  exists_mem_set hi h fun hself => absurd hself hpc

/-- After an unlock, what is locked was not in the snapshot. -/
theorem excused_unlock {round : ℕ} {candidates : Finset Outpoint} (h : Coherent wallet s)
    (hi : s.processes[i]? = some ⟨op, .apply round true candidates⟩) (houtput : output ∈ s.locked)
    (hnot : output ∉ candidates) :
    ∃ process ∈ s.processes.set i ⟨op, pc'⟩, process.pc.Excuses output := by
  rcases h.locked output houtput with hcandidate | hexcused
  · exact absurd (h.known _ (List.mem_iff_getElem?.2 ⟨i, hi⟩) _ _ _ rfl hcandidate) hnot
  · exact excused_set hi (fun hself => hnot (excuses_apply.1 hself).2) hexcused

theorem Coherent.unlock {round : ℕ} {candidates : Finset Outpoint} (h : Coherent wallet s)
    (hi : s.processes[i]? = some ⟨op, .apply round true candidates⟩) :
    Coherent wallet { s.unlockOutputs candidates with
      processes := s.processes.set i ⟨op, .recheck round true⟩ } := by
  refine ⟨fun output houtput => ?_, forall_mem_set h.known (by simp), ?_⟩
  · obtain ⟨houtput, hnot⟩ := Finset.mem_sdiff.1 houtput
    exact .inr (excused_unlock h hi houtput hnot)
  by_cases hrelease : s.phase.releasesWalletLocks = true
  · by_cases hempty : s.locked \ candidates = ∅
    · refine .inl ?_
      simp only [Agrees, State.unlockOutputs, hrelease, if_true]
      exact hempty
    · -- Another loop will unlock what is left.
      obtain ⟨output, houtput⟩ := Finset.nonempty_iff_ne_empty.2 hempty
      obtain ⟨houtput, hnot⟩ := Finset.mem_sdiff.1 houtput
      obtain ⟨process, hprocess, hexcuses⟩ := excused_unlock h hi houtput hnot
      refine .inr ⟨process, hprocess, ?_⟩
      rw [State.unlockOutputs, hrelease]
      exact hexcuses.responsible
  · exact .inr ⟨_, mem_set_self hi, Ne.symm hrelease⟩

theorem Coherent.lock {round : ℕ} {candidates : Finset Outpoint} (h : Coherent wallet s)
    (hi : s.processes[i]? = some ⟨op, .apply round false candidates⟩)
    (hfree : StrandsNothing wallet s (.advance i)) :
    Coherent wallet { s.lockOutputs wallet candidates with
      processes := s.processes.set i ⟨op, .recheck round false⟩ } := by
  have hknown := h.known _ (List.mem_iff_getElem?.2 ⟨i, hi⟩) _ _ _ rfl
  have hpc (output) : ¬ (Pc.apply round false candidates).Excuses output := by simp
  refine ⟨fun output houtput => ?_, forall_mem_set h.known (by simp), ?_⟩
  · rcases Finset.mem_union.1 houtput with hold | hnew
    · exact (h.locked output hold).imp_right (excused_set hi (hpc output))
    · by_cases hcandidate : output ∈ s.candidates
      · exact .inl hcandidate
      · have hstranded : output ∈ (Event.advance i).strands wallet s := by
          simpa [Event.strands, hi] using ⟨Finset.mem_filter.1 hnew, hcandidate⟩
        exact .inr (excused_set hi (hpc output) (hfree output hstranded).excused)
  by_cases hrelease : s.phase.releasesWalletLocks = true
  · refine .inr ⟨_, mem_set_self hi, fun hfalse => ?_⟩
    exact absurd (hrelease.symm.trans hfalse.symm) (by decide)
  · refine .inl ?_
    simp only [Agrees, State.lockOutputs, hrelease]
    intro output houtput hspendable
    exact Finset.mem_union_right _ (Finset.mem_filter.2 ⟨hknown houtput, hspendable⟩)

theorem Coherent.discard (h : Coherent wallet s) (hi : s.processes[i]? = some ⟨op, .cleanup⟩)
    (hfree : StrandsNothing wallet s (.advance i)) :
    Coherent wallet { s.discardUnsubmitted with
      processes := s.processes.set i ⟨op, .returned⟩ } := by
  have hsub := discardUnsubmitted_candidates s
  have hpc (output) : ¬ Pc.cleanup.Excuses output := by simp [Pc.Excuses, Pc.aboutToUnlock]
  refine ⟨fun output houtput => ?_, forall_mem_set (fun process hprocess round release
    candidates happly => hsub.trans (h.known process hprocess _ _ _ happly)) (by simp), ?_⟩
  · by_cases hkept : output ∈ s.discardUnsubmitted.candidates
    · exact .inl hkept
    · refine .inr (excused_set hi (hpc output) ?_)
      rcases h.locked output houtput with hcandidate | hexcused
      · have hstranded : output ∈ (Event.advance i).strands wallet s := by
          simpa [Event.strands, hi] using ⟨⟨hcandidate, hkept⟩, houtput⟩
        exact (hfree output hstranded).excused
      · exact hexcused
  · refine h.pending.imp (fun hagrees => ?_) fun hother => exists_mem_set hi hother False.elim
    by_cases hrelease : s.phase.releasesWalletLocks = true
    · simpa only [Agrees, State.discardUnsubmitted, hrelease, if_true] using hagrees
    · simp only [Agrees, hrelease] at hagrees
      simp only [Agrees, State.discardUnsubmitted, hrelease]
      exact fun output houtput => hagrees output (hsub houtput)

theorem Coherent.move (h : Coherent wallet s) (hi : s.processes[i]? = some ⟨op, pc⟩)
    (hfree : StrandsNothing wallet s (.advance i)) (hmove : Move wallet s pc s' pc') :
    Coherent wallet { s' with processes := s.processes.set i ⟨op, pc'⟩ } := by
  cases hmove with
  | turn phase hpc hpc' =>
    refine ⟨fun output houtput => ?_, forall_mem_set h.known ?_, .inr ⟨_, mem_set_self hi, hpc' _⟩⟩
    · exact (h.locked output houtput).imp_right (excused_set hi (hpc output))
    · exact fun _ _ _ happly => absurd happly (not_apply_of_responsible hpc')
  | read round =>
    refine ⟨fun output houtput => ?_, forall_mem_set h.known ?_, .inr ⟨_, mem_set_self hi, rfl⟩⟩
    · apply (h.locked output houtput).imp_right
      exact excused_set hi (by simp [Pc.Excuses, Pc.aboutToUnlock])
    · intro _ _ _ happly
      cases happly
      exact subset_rfl
  | unlock round candidates => exact h.unlock hi
  | lock round candidates => exact h.lock hi hfree
  | leave round hpc' =>
    refine ⟨fun output houtput => ?_, forall_mem_set h.known ?_,
      h.pending.imp_right fun hother => exists_mem_set hi hother ?_⟩
    · apply (h.locked output houtput).imp_right
      exact excused_set hi (by simp [Pc.Excuses, Pc.aboutToUnlock])
    · rintro _ _ _ rfl
      simp at hpc'
    · exact fun hself => absurd rfl hself
  | discard => exact h.discard hi hfree

theorem Coherent.step {e : Event} (h : Coherent wallet s) (hfree : StrandsNothing wallet s e)
    (hstep : step wallet s e = some s') : Coherent wallet s' := by
  cases e with
  | start op =>
    cases hstep
    refine ⟨fun output houtput => ?_, ?_, .inr ⟨⟨op, .ready⟩, by simp, trivial⟩⟩
    · exact (h.locked output houtput).imp_right fun ⟨process, hprocess, hexcuses⟩ =>
        ⟨process, List.mem_append_left _ hprocess, hexcuses⟩
    · intro process hprocess
      obtain hold | hnew := List.mem_append.1 hprocess
      · exact h.known process hold
      · obtain rfl := List.mem_singleton.1 hnew
        simp
  | advance i =>
    obtain ⟨⟨op, pc⟩, hi, hstep⟩ := Option.bind_eq_some_iff.1 hstep
    obtain ⟨⟨m, pc'⟩, hadvance, hstep⟩ := Option.bind_eq_some_iff.1 hstep
    cases hstep
    exact h.move hi hfree (move_of_advance hadvance)
  | fail i =>
    obtain ⟨⟨op, pc⟩, hi, hstep⟩ := Option.bind_eq_some_iff.1 hstep
    cases hstep
    exact ⟨fun _ _ => .inr ⟨_, mem_set_self hi, .inl rfl⟩, forall_mem_set h.known (by simp),
      .inr ⟨_, mem_set_self hi, trivial⟩⟩

end Move

theorem coherent_newRun (wallet : Wallet) (phase : Phase) (preparedNotes : Finset Outpoint)
    (stages : List Stage) : Coherent wallet (newRun phase preparedNotes stages) := by
  refine ⟨?_, ?_, .inr ⟨⟨.reconcile, .ready⟩, List.mem_singleton_self _, trivial⟩⟩ <;>
    simp [newRun]

/-- The locks agree with the phase once every operation has returned. -/
theorem locks_converge {wallet : Wallet} {phase : Phase} {preparedNotes : Finset Outpoint}
    {stages : List Stage} {s : State}
    (h : (lockSystem wallet (newRun phase preparedNotes stages)).Reaches (StrandsNothing wallet) s)
    (hreturned : ∀ process ∈ s.processes, process.pc = .returned) : Agrees wallet s := by
  have hcoherent : Coherent wallet s :=
    h.invariant (coherent_newRun wallet phase preparedNotes stages)
      fun _ _ _ hs hfree hstep => hs.step hfree hstep
  refine hcoherent.pending.resolve_right fun ⟨process, hprocess, hresponsible⟩ => ?_
  rw [hreturned process hprocess] at hresponsible
  exact hresponsible

/-! ## A loop that crosses a stop -/

/-- A run with one unsubmitted stage, whose input is spendable. -/
def sampleRun : State :=
  newRun .waitingDenomConfirmations ∅ [⟨.awaitingInputs, {("ab", 0)}⟩]

def sampleSystem : Transition State Event := lockSystem (some fun _ => true) sampleRun

/-- The loop of the new run (process 0) locks after the stop (process 1) has released the locks,
and takes its second snapshot before the cleanup. -/
def crossedBeforeCleanup : List Event :=
  [.start .abandon, .advance 0, .advance 0, .advance 1, .advance 1, .advance 1, .advance 1,
    .advance 0, .advance 0, .advance 0, .advance 1, .advance 1, .advance 0, .advance 0]

theorem locks_converge_crossed : ∃ s, sampleSystem.runWhile (StrandsNothing (some fun _ => true))
    sampleRun crossedBeforeCleanup = some s ∧ s.phase = .abandoned ∧
      Agrees (some fun _ => true) s := by
  cases hrun : sampleSystem.runWhile (StrandsNothing (some fun _ => true)) sampleRun
      crossedBeforeCleanup with
  | none =>
    have hsome : (sampleSystem.runWhile (StrandsNothing (some fun _ => true)) sampleRun
        crossedBeforeCleanup).isSome := by decide +kernel
    simp [hrun] at hsome
  | some s =>
    have hend : (sampleSystem.runWhile (StrandsNothing (some fun _ => true)) sampleRun
        crossedBeforeCleanup).all fun s => s.phase = .abandoned ∧
          ∀ process ∈ s.processes, process.pc = .returned := by decide +kernel
    rw [hrun] at hend
    obtain ⟨hphase, hreturned⟩ := of_decide_eq_true hend
    exact ⟨s, rfl, hphase, locks_converge (.runWhile .init hrun) hreturned⟩

/-- The same loop locks after the cleanup of the stop. -/
def crossedAfterCleanup : List Event :=
  [.start .abandon, .advance 0, .advance 0, .advance 1, .advance 1, .advance 1, .advance 1,
    .advance 1, .advance 1, .advance 0, .advance 0, .advance 0, .advance 0, .advance 0]

/-- A stopped run keeps a lock when a loop crosses its cleanup. -/
theorem lock_leaked : ¬ ∀ s, sampleSystem.Reachable s →
    (∀ process ∈ s.processes, process.pc = .returned) → Agrees (some fun _ => true) s := by
  intro h
  cases hrun : sampleSystem.run sampleRun crossedAfterCleanup with
  | none =>
    have hsome : (sampleSystem.run sampleRun crossedAfterCleanup).isSome := by decide +kernel
    simp [hrun] at hsome
  | some s =>
    have hend : (sampleSystem.run sampleRun crossedAfterCleanup).all fun s =>
        s.phase = .abandoned ∧ s.locked ≠ ∅ ∧
          ∀ process ∈ s.processes, process.pc = .returned := by decide +kernel
    rw [hrun] at hend
    obtain ⟨hphase, hlocked, hreturned⟩ := of_decide_eq_true hend
    have hagrees := h s (Transition.Reachable.run .init hrun) hreturned
    simp only [Agrees, hphase, Phase.releasesWalletLocks, if_true] at hagrees
    exact hlocked hagrees

end VizorWallet.Migration.Locks
