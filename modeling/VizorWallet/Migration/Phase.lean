import Mathlib.Data.Bool.Basic

/-!
# Phases of a migration run

## Main definitions

* `Phase` — the phases.
* `Phase.releasesWalletLocks` — the phases that end a run.
-/

namespace VizorWallet.Migration

inductive Phase where
  | noOrchardFunds
  | waitingForSpendableOrchard
  | waitingForIronwoodSpendability
  | readyToPrepare
  | awaitingPreparation
  | awaitingDenominationSignature
  | waitingDenomConfirmations
  | readyToMigrate
  | broadcastScheduled
  | broadcasting
  | waitingMigrationConfirmations
  | complete
  | paused
  | failedRecoverable
  | failedTerminal
  | abandoned
  deriving DecidableEq

/-- `migration_phase_releases_wallet_locks` -/
def Phase.releasesWalletLocks : Phase → Bool
  | .complete | .failedTerminal | .abandoned => true
  | _ => false

/-- The status of a denomination stage. -/
inductive StageStatus where
  | awaitingInputs
  | pending
  | broadcasted
  | confirmed
  deriving DecidableEq

/-- What is recorded about submissions of a transaction. -/
inductive BroadcastAttempt where
  | notAttempted
  | attempted
  | legacyUnknown
  deriving DecidableEq

end VizorWallet.Migration
