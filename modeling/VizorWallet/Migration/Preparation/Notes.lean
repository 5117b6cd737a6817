import VizorWallet.Machine
import Mathlib.Data.List.Basic
import Mathlib.Algebra.GroupWithZero.Nat

/-!
# Preparation plans

The notes, transactions and plans of `wallet/sync/migration/preparation_plan.rs`: how the
wallet's notes are restructured into the self-funding notes of a migration run, by transactions of
at most sixteen actions grouped in layers.  Values inside the planner are natural numbers.

## Main definitions

* `PrepInput`, `PrepOutput`, `PrepTransaction`, `PreparationPlan` — the plan and its parts.
* `extractDirectFunding` — wallet notes that already are funding notes.
* `feeders`, `unconsumedFeeders`, `relabel` — the intermediate notes and those nothing spends.
-/

namespace VizorWallet.Migration

/-- The maximum money supply, in zatoshi. -/
def maxMoney : ℕ := 2_100_000_000_000_000

/-- An amount of at most the maximum money supply. -/
structure Zatoshis where
  val : ℕ
  le_maxMoney : val ≤ maxMoney
  deriving DecidableEq

/-- `Zatoshis::from_u64`. -/
def Zatoshis.ofNat? (value : ℕ) : Option Zatoshis :=
  if h : value ≤ maxMoney then some ⟨value, h⟩ else none

/-- The sum of some amounts, when it is an amount. -/
def Zatoshis.sum (values : List Zatoshis) : Option Zatoshis :=
  values.foldl
    (fun total v => total.bind fun t =>
      if h : t.val + v.val ≤ maxMoney then some ⟨t.val + v.val, h⟩ else none)
    (some ⟨0, Nat.zero_le _⟩)

@[simp] theorem Zatoshis.ofNat?_eq_some {value : ℕ} {z : Zatoshis} :
    Zatoshis.ofNat? value = some z ↔ z.val = value := by
  unfold Zatoshis.ofNat?
  split_ifs with h
  · rw [Option.some.injEq, eq_comm]
    exact ⟨fun heq => by rw [heq], fun heq => by cases z; cases heq; rfl⟩
  · simp only [false_iff]
    rintro rfl
    exact h z.le_maxMoney

/-- The sum of some amounts is the amount of their sum, when that is one. -/
theorem Zatoshis.sum_eq (values : List Zatoshis) :
    Zatoshis.sum values = Zatoshis.ofNat? (values.map Zatoshis.val).sum := by
  have hnone : ∀ l : List Zatoshis, l.foldl
      (fun total v => total.bind fun t =>
        if h : t.val + v.val ≤ maxMoney then some ⟨t.val + v.val, h⟩ else none)
      (none : Option Zatoshis) = none := by
    intro l
    induction l with
    | nil => rfl
    | cons v rest ih => exact ih
  have hfold : ∀ (l : List Zatoshis) (start : Zatoshis), l.foldl
      (fun total v => total.bind fun t =>
        if h : t.val + v.val ≤ maxMoney then some ⟨t.val + v.val, h⟩ else none)
      (some start) = Zatoshis.ofNat? (start.val + (l.map Zatoshis.val).sum) := by
    intro l
    induction l with
    | nil =>
      intro start
      simp [Zatoshis.ofNat?, start.le_maxMoney]
    | cons v rest ih =>
      intro start
      rw [List.foldl_cons, List.map_cons, List.sum_cons, ← Nat.add_assoc]
      by_cases h : start.val + v.val ≤ maxMoney
      · simp only [Option.bind_some, dif_pos h]
        exact ih ⟨start.val + v.val, h⟩
      · simp only [Option.bind_some, dif_neg h]
        rw [hnone, Zatoshis.ofNat?, dif_neg (by omega)]
  simpa [Zatoshis.sum] using hfold values ⟨0, Nat.zero_le _⟩

def prepTxActions : ℕ := 16

def fundingOutputsPerTx : ℕ := prepTxActions - 2

def consolidationInputsPerTx : ℕ := prepTxActions - 1

/-- A note that a preparation transaction spends. -/
inductive PrepInput
  | wallet (index value : ℕ)
  | prior (layer transaction output value : ℕ)
  deriving DecidableEq, Repr

namespace PrepInput

def value : PrepInput → ℕ
  | wallet _ v => v
  | prior _ _ _ v => v

@[simp] theorem value_wallet (index v : ℕ) : (wallet index v).value = v := rfl

@[simp] theorem value_prior (l t o v : ℕ) : (prior l t o v).value = v := rfl

end PrepInput

/-- A note that a preparation transaction produces. -/
inductive PrepOutput
  | funding (value : ℕ)
  | intermediate (value : ℕ)
  | change (value : ℕ)
  deriving DecidableEq, Repr

namespace PrepOutput

def value : PrepOutput → ℕ
  | funding v => v
  | intermediate v => v
  | change v => v

@[simp] theorem value_funding (v : ℕ) : (funding v).value = v := rfl

@[simp] theorem value_intermediate (v : ℕ) : (intermediate v).value = v := rfl

@[simp] theorem value_change (v : ℕ) : (change v).value = v := rfl

/-- The value of a funding output. -/
def funding? : PrepOutput → Option ℕ
  | funding v => some v
  | _ => none

/-- The value of an intermediate output. -/
def intermediate? : PrepOutput → Option ℕ
  | intermediate v => some v
  | _ => none

/-- The value of a change output. -/
def change? : PrepOutput → Option ℕ
  | change v => some v
  | _ => none

end PrepOutput

structure PrepTransaction where
  inputs : List PrepInput
  outputs : List PrepOutput
  deriving DecidableEq, Repr

/-- The logical action count before padding. -/
def PrepTransaction.actionCount (tx : PrepTransaction) : ℕ :=
  tx.inputs.length + tx.outputs.length

/-- The transactions of each layer. -/
abbrev Layers := List (List PrepTransaction)

/-- A schedule of preparation transactions, with the wallet notes (by their index) that already
are funding notes. -/
structure PreparationPlan where
  layers : Layers
  directFunding : List (ℕ × ℕ)
  deriving DecidableEq, Repr

namespace PreparationPlan

def transactions (plan : PreparationPlan) : List PrepTransaction := plan.layers.flatten

def transactionCount (plan : PreparationPlan) : ℕ := (plan.layers.map List.length).sum

def allOutputs (plan : PreparationPlan) : List PrepOutput :=
  plan.transactions.flatMap PrepTransaction.outputs

/-- The values of the funding notes the plan mints or uses directly. -/
def fundingNotes (plan : PreparationPlan) : List ℕ :=
  plan.allOutputs.filterMap PrepOutput.funding? ++ plan.directFunding.map Prod.snd

/-- The values of the notes the plan leaves in the source pool. -/
def residualNotes (plan : PreparationPlan) : List ℕ :=
  plan.allOutputs.filterMap PrepOutput.change?

end PreparationPlan

inductive PrepError
  | insufficientFunds
  | balanceInvalid
  deriving DecidableEq, Repr

/-! ## Exact matches -/

/-- The wallet notes taken so far, the direct funding notes and the funding values kept, as the
closure passed to `retain` leaves them. -/
structure DirectScan where
  used : List Bool
  direct : List (ℕ × ℕ)
  kept : List ℕ

/-- The first wallet note of value `funding` that is not taken yet. -/
def matchingNote (available : List ℕ) (used : List Bool) (funding : ℕ) : Option ℕ :=
  (available.zip used).findIdx? fun (value, taken) => !taken && value == funding

def DirectScan.step (available : List ℕ) (scan : DirectScan) (funding : ℕ) : DirectScan :=
  match matchingNote available scan.used funding with
  | some index =>
    { scan with used := scan.used.set index true, direct := scan.direct ++ [(index, funding)] }
  | none => { scan with kept := scan.kept ++ [funding] }

def extractDirectFunding (available remaining : List ℕ) : DirectScan :=
  remaining.foldl (DirectScan.step available)
    { used := List.replicate available.length false, direct := [], kept := [] }

/-- The wallet notes that no funding value uses directly, with their index. -/
def walletNotes (available : List ℕ) (used : List Bool) : List PrepInput :=
  (available.zip used).zipIdx.filterMap fun ((value, taken), index) =>
    if taken then none else some (.wallet index value)

/-! ## Feeders -/

/-- The feeder an output is, when it is an intermediate one. -/
def PrepOutput.feeder? (layer transaction output : ℕ) : PrepOutput → Option PrepInput
  | intermediate v => some (.prior layer transaction output v)
  | _ => none

/-- The feeders of a transaction, as the inputs that spend them. -/
def txFeeders (layer transaction : ℕ) (outputs : List PrepOutput) : List PrepInput :=
  outputs.zipIdx.filterMap fun (out, oi) => out.feeder? layer transaction oi

/-- The feeders of a layer whose first transaction has index `first`. -/
def layerFeeders (layer first : ℕ) (txs : List PrepTransaction) : List PrepInput :=
  (txs.zipIdx first).flatMap fun (tx, ti) => txFeeders layer ti tx.outputs

/-- The feeders of some layers, the first of index `first`. -/
def feedersFrom (first : ℕ) (layers : Layers) : List PrepInput :=
  (layers.zipIdx first).flatMap fun (txs, li) => layerFeeders li 0 txs

/-- Every intermediate output. -/
def feeders (layers : Layers) : List PrepInput := feedersFrom 0 layers

/-- Every input of every transaction. -/
def spentInputs (layers : Layers) : List PrepInput :=
  layers.flatten.flatMap PrepTransaction.inputs

/-- The output an input spends. -/
def PrepInput.coordinates? : PrepInput → Option (ℕ × ℕ × ℕ)
  | prior layer transaction output _ => some (layer, transaction, output)
  | wallet _ _ => none

/-- The outputs of earlier layers that are spent. -/
def spentOutputs (layers : Layers) : List (ℕ × ℕ × ℕ) :=
  (spentInputs layers).filterMap PrepInput.coordinates?

/-- Every intermediate output that no transaction spends. -/
def unconsumedFeeders (layers : Layers) : List PrepInput :=
  (feeders layers).filter fun note =>
    note.coordinates?.any fun coordinates => coordinates ∉ spentOutputs layers

/-- An intermediate output that nothing spends is change. -/
def relabelOutput (spent : List (ℕ × ℕ × ℕ)) (coordinates : ℕ × ℕ × ℕ) :
    PrepOutput → PrepOutput
  | .intermediate v => if coordinates ∈ spent then .intermediate v else .change v
  | out => out

/-- Relabel every feeder that no later layer spends as change. -/
def relabel (layers : Layers) : Layers :=
  layers.mapIdx fun li txs => txs.mapIdx fun ti tx =>
    { tx with
      outputs := tx.outputs.mapIdx fun oi out =>
        relabelOutput (spentOutputs layers) (li, ti, oi) out }

end VizorWallet.Migration
