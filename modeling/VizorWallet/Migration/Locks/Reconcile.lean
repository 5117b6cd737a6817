import Mathlib.Data.Finset.Lattice.Fold
import VizorWallet.Library.Transition
import VizorWallet.Migration.Phase

/-!
# Wallet locks of a migration run

The loops that bring the wallet's output locks in line with the phase of a run, and the operations
that change the phase and then run such a loop. Each database transaction is one step; the steps
of different operations interleave.

## Main definitions

* `State` — the run, the outputs that it has locked, and the operations in progress.
* `advance` — the next transaction of an operation.
* `lockSystem` — the interleavings.
-/

namespace VizorWallet.Migration.Locks

/-- An output of a transaction: the transaction id and the index. -/
abbrev Outpoint := String × ℕ

structure Stage where
  status : StageStatus
  inputs : Finset Outpoint
  deriving DecidableEq

/-- The operations that end with a reconciliation of the wallet locks. -/
inductive Op where
  | reconcile
  | abandon
  | retire
  | complete
  | recover
  deriving DecidableEq

/-- Where an operation stands. -/
inductive Pc where
  | ready
  /-- `abandon_run` has read the phase. -/
  | commit (read : Phase)
  | snapshot (round : ℕ)
  | apply (round : ℕ) (releaseLocks : Bool) (candidates : Finset Outpoint)
  | recheck (round : ℕ) (releaseLocks : Bool)
  | cleanup
  | returned
  | failed
  deriving DecidableEq

structure Process where
  op : Op
  pc : Pc
  deriving DecidableEq

structure State where
  phase : Phase
  preparedNotes : Finset Outpoint
  stages : List Stage
  /-- The outputs that the run's owner has locked in the wallet. -/
  locked : Finset Outpoint
  processes : List Process
  deriving DecidableEq

/-- `wallet_lock_candidates_with_conn` -/
def State.candidates (s : State) : Finset Outpoint :=
  s.stages.foldr (fun stage inputs => stage.inputs ∪ inputs) s.preparedNotes

/-- `discard_unsubmitted_preparation_stages` -/
def State.discardUnsubmitted (s : State) : State :=
  { s with stages := s.stages.filter fun stage =>
      stage.status ≠ .awaitingInputs ∧ stage.status ≠ .pending }

/-- The spendable notes of the wallet; nothing is known before its target height is restored. -/
abbrev Wallet := Option (Outpoint → Bool)

def Wallet.spendable (wallet : Wallet) (output : Outpoint) : Bool :=
  wallet.elim false fun spendable => spendable output

/-- `ensure_orchard_migration_locks` -/
def State.lockOutputs (wallet : Wallet) (s : State) (candidates : Finset Outpoint) : State :=
  { s with locked := s.locked ∪ candidates.filter fun output => wallet.spendable output }

/-- `unlock_orchard_migration_outputs` -/
def State.unlockOutputs (s : State) (candidates : Finset Outpoint) : State :=
  { s with locked := s.locked \ candidates }

/-- The rounds of a reconciliation loop. -/
def ROUNDS : ℕ := 8

/-- The next transaction of an operation, and where the operation stands afterwards. -/
def advance (wallet : Wallet) (s : State) (op : Op) : Pc → Option (State × Pc)
  | .ready =>
    match op with
    | .reconcile => some (s, .snapshot 0)
    | .abandon =>
      if s.phase = .abandoned then some (s, .snapshot 0)
      else if s.phase = .complete ∨ s.phase = .failedTerminal then some (s, .failed)
      else some (s, .commit s.phase)
    | .retire => some ({ s with phase := .failedTerminal }, .snapshot 0)
    | .complete =>
      some ({ s with phase := if s.phase.releasesWalletLocks then s.phase else .complete },
        .snapshot 0)
    | .recover =>
      some ({ s with phase := if s.phase = .failedTerminal then .broadcastScheduled else s.phase },
        .snapshot 0)
  | .commit read =>
    if s.phase = read then some ({ s with phase := .abandoned }, .snapshot 0)
    else some (s, .failed)
  | .snapshot round => some (s, .apply round s.phase.releasesWalletLocks s.candidates)
  | .apply round releaseLocks candidates =>
    some (if releaseLocks then s.unlockOutputs candidates else s.lockOutputs wallet candidates,
      .recheck round releaseLocks)
  | .recheck round releaseLocks =>
    if releaseLocks = s.phase.releasesWalletLocks then
      some (s, if op = .abandon then .cleanup else .returned)
    else some (s, if round + 1 < ROUNDS then .snapshot (round + 1) else .failed)
  | .cleanup => some (s.discardUnsubmitted, .returned)
  | .returned => none
  | .failed => none

inductive Event where
  | start (op : Op)
  | advance (process : ℕ)
  /-- A database or wallet error. -/
  | fail (process : ℕ)
  deriving DecidableEq

def step (wallet : Wallet) (s : State) : Event → Option State
  | .start op => some { s with processes := s.processes ++ [⟨op, .ready⟩] }
  | .advance i => do
    let process ← s.processes[i]?
    let (s', pc) ← advance wallet s process.op process.pc
    return { s' with processes := s.processes.set i ⟨process.op, pc⟩ }
  | .fail i => do
    let process ← s.processes[i]?
    return { s with processes := s.processes.set i ⟨process.op, .failed⟩ }

/-- A new run: it holds no locks, and its creation reconciles them. -/
def newRun (phase : Phase) (preparedNotes : Finset Outpoint) (stages : List Stage) : State :=
  ⟨phase, preparedNotes, stages, ∅, [⟨.reconcile, .ready⟩]⟩

/-- All interleavings of operations on one run. -/
def lockSystem (wallet : Wallet) (initial : State) : Transition State Event :=
  ⟨initial, step wallet⟩

end VizorWallet.Migration.Locks
