import VizorWallet.Library.Rlp
import VizorWallet.Zns.Intent

/-!
# Signed transactions

An intent becomes a type 2 transaction, or a type 4 transaction with one authorization of the
configured delegate.

## Main definitions

* `RawTransaction.encode` — the signed bytes of a transaction.
* `sign` — the limits on nonce, gas and fees, and the signature.
-/

namespace VizorWallet.Zns

variable (P : Packages)

structure Transaction where
  nonce : Bytes
  gasLimit : Bytes
  maxFeePerGas : Bytes
  maxPriorityFeePerGas : Bytes
  l1FeeWei : Bytes

structure SignedTransaction where
  rawTransaction : Bytes
  transactionHash : Bytes
  sender : Bytes
  transactionType : ℕ
  l1FeeEstimateWei : Bytes
  maximumExecutionFeeWei : Bytes
  authorizationNonce : Option Bytes

/-- A big-endian number. -/
def ofBigEndian (b : Bytes) : ℕ := Nat.ofDigits 256 (b.reverse.map UInt8.toNat)

/-- The recovery bit and the two halves of a signature. -/
def signatureItems (signature : Signature) : List Bytes :=
  [Rlp.number signature.recoveryId, Rlp.number (ofBigEndian signature.r.val),
    Rlp.number (ofBigEndian signature.s.val)]

/-- A signature with one of the two recovery identifiers of Ethereum. -/
def signDigest (key : P.SigningKey) (payload : Bytes) (failure : String) :
    Except String Signature := do
  let signature ← orError (P.signPrehash key (P.keccak256 payload)) failure
  ensure (signature.recoveryId ≤ 1) "Unsupported Ethereum recovery identifier"
  return signature

/-- The delegate that an account authorizes. -/
structure Authorization where
  chainId : ℕ
  delegate : Address
  nonce : ℕ

namespace Authorization

def items (authorization : Authorization) : List Bytes :=
  [Rlp.number authorization.chainId, Rlp.bytes authorization.delegate.val,
    Rlp.number authorization.nonce]

/-- What is signed for an authorization. -/
def payload (authorization : Authorization) : Bytes := 0x05 :: Rlp.list authorization.items

def encode (authorization : Authorization) (signature : Signature) : Bytes :=
  Rlp.list (authorization.items ++ signatureItems signature)

end Authorization

/-- The fields of a transaction; an authorization comes with its signature. -/
structure RawTransaction where
  chainId : ℕ
  nonce : ℕ
  maxPriorityFeePerGas : U256
  maxFeePerGas : U256
  gasLimit : U256
  target : Address
  value : U256
  data : Bytes
  authorization : Option (Authorization × Signature)

namespace RawTransaction

/-- The type of a transaction. -/
def type (tx : RawTransaction) : UInt8 := if tx.authorization.isSome then 4 else 2

def items (tx : RawTransaction) : List Bytes :=
  [Rlp.number tx.chainId, Rlp.number tx.nonce, Rlp.number tx.maxPriorityFeePerGas.val,
    Rlp.number tx.maxFeePerGas.val, Rlp.number tx.gasLimit.val, Rlp.bytes tx.target.val,
    Rlp.number tx.value.val, Rlp.bytes tx.data, Rlp.list []] ++
  (tx.authorization.map fun auth => Rlp.list [auth.1.encode auth.2]).toList

/-- What is signed for a transaction. -/
def payload (tx : RawTransaction) : Bytes := tx.type :: Rlp.list tx.items

/-- The signed bytes of a transaction. -/
def encode (tx : RawTransaction) (signature : Signature) : Bytes :=
  tx.type :: Rlp.list (tx.items ++ signatureItems signature)

end RawTransaction

/-- `str::parse::<u64>`. -/
def parseU64 (text : Bytes) : Option ℕ :=
  let digits := if text.head? = some 0x2b then text.tail else text
  if digits ≠ [] ∧ digits.all isDigit ∧ ofDecimal digits < u64Size then some (ofDecimal digits)
  else none

def keyAddress (key : P.SigningKey) : Address :=
  let hash := P.keccak256 (P.encodedPoint key).tail
  ⟨hash.val.drop 12, by rw [List.length_drop, hash.property]⟩

/-- The nonce after the transaction's, which the authorization uses. -/
def authorizationNonce (nonce : ℕ) (required : Bool) : Except String (Option ℕ) :=
  if required then
    (orError ((checkedAdd nonce 1).filter (· < u64Size - 1)) "Authorization nonce exhausted").map
      some
  else .ok none

/-- The signed authorization of the configured delegate. -/
def authorization (key : P.SigningKey) (config : Config) (nonce : ℕ) :
    Except String (Authorization × Signature) := do
  let delegateText ← orError config.delegate "Missing delegate"
  let delegate ← address P delegateText
  let unsigned : Authorization := { chainId := config.chainId, delegate, nonce }
  let signature ← signDigest P key unsigned.payload "Authorization signing failed"
  return (unsigned, signature)

/-- The authorization that a transaction carries. -/
def authorizationFor (key : P.SigningKey) (config : Config) :
    Option ℕ → Except String (Option (Authorization × Signature))
  | none => .ok none
  | some nonce => (authorization P key config nonce).map some

def sign (key : P.SigningKey) (config : Config) (operation : Operation)
    (transaction : Transaction) : Except String SignedTransaction := do
  let owner := keyAddress P key
  let prepared ← prepare P config (P.toChecksum owner) operation
  let nonce ← orError (parseU64 transaction.nonce) "Nonce must fit uint64"
  ensure (nonce ≠ u64Size - 1) "Nonce exhausted"
  let gas ← number transaction.gasLimit
  let maxFee ← number transaction.maxFeePerGas
  let priority ← number transaction.maxPriorityFeePerGas
  let l1Fee ← number transaction.l1FeeWei
  let maxGas ← number config.maxGasLimit
  let maxFeeLimit ← number config.maxFeePerGasWei
  ensure (gas ≠ 0 ∧ gas ≤ maxGas ∧ maxFee ≠ 0 ∧ maxFee ≤ maxFeeLimit ∧ priority ≤ maxFee)
    "Transaction gas or fee exceeds the reviewed limit"
  ensure (gas.val * maxFee.val < 2 ^ 256) "Gas fee overflow"
  ensure (gas.val * maxFee.val + l1Fee.val < 2 ^ 256) "Total fee overflow"
  let maxTotalFee ← number config.maxTotalFeeWei
  ensure (gas.val * maxFee.val + l1Fee.val ≤ maxTotalFee.val)
    "Estimated total Base fee exceeds the reviewed limit"
  let authNonce ← authorizationNonce nonce prepared.authorizationRequired
  let auth ← authorizationFor P key config authNonce
  let target ← address P prepared.target
  let value ← number prepared.value
  let data ← bytes prepared.data
  let tx : RawTransaction :=
    { chainId := config.chainId, nonce, maxPriorityFeePerGas := priority, maxFeePerGas := maxFee,
      gasLimit := gas, target, value, data, authorization := auth }
  let signature ← signDigest P key tx.payload "Transaction signing failed"
  let raw := tx.encode signature
  return {
    transactionHash := hexText (P.keccak256 raw).val
    rawTransaction := hexText raw
    sender := P.toChecksum owner
    transactionType := tx.type.toNat
    l1FeeEstimateWei := decimal l1Fee.val
    maximumExecutionFeeWei := decimal (gas.val * maxFee.val)
    authorizationNonce := authNonce.map decimal }

end VizorWallet.Zns
