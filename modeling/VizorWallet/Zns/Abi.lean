import VizorWallet.Library.Hex
import VizorWallet.Library.Outcome

/-!
# The calls of the name service

The functions that the signer encodes, the packages it uses, and the check of quoted swap calldata.

## Main definitions

* `Call` — a call of the registry, the token, the router or the account.
* `Packages` — addresses, hashing, ABI encoding and signing.
* `validateSwap` — the checks of swap calldata.
-/

namespace VizorWallet.Zns

abbrev Address := Fixed 20

/-- A 256-bit number. -/
abbrev U256 := Fin (2 ^ 256)

instance neZeroU256 : NeZero (2 ^ 256) := inferInstance

def zeroAddress : Address := ⟨List.replicate 20 0, rfl⟩

/-- A call that the account makes. -/
structure Execution where
  target : Address
  value : U256
  data : Bytes
  deriving DecidableEq

structure SwapDescription where
  srcToken : Address
  dstToken : Address
  srcReceivers : List Address
  srcAmounts : List U256
  feeReceivers : List Address
  feeAmounts : List U256
  dstReceiver : Address
  amount : U256
  minReturnAmount : U256
  flags : U256
  permit : Bytes
  deriving DecidableEq

structure SwapExecutionParams where
  callTarget : Address
  approveTarget : Address
  targetData : Bytes
  desc : SwapDescription
  clientData : Bytes
  deriving DecidableEq

structure RegisterCall where
  name : Bytes
  unifiedAddress : Bytes
  secret : Fixed 32
  maxDeposit : U256
  extraDeposit : U256
  expectedPricingMode : UInt8
  deadline : U256
  deriving DecidableEq

inductive Call where
  | commit (commitment : Fixed 32)
  | register (call : RegisterCall)
  | refresh (positionId : U256)
  | claimRewards (positionId : U256)
  | release (positionId : U256)
  | setUnifiedAddress (positionId : U256) (unifiedAddress : Bytes)
  | withdrawClaims
  | safeTransferFrom (source target : Address) (tokenId : U256)
  | approve (spender : Address) (amount : U256)
  | execute (calls : List Execution) (deadline : U256)
  | swap (execution : SwapExecutionParams)
  deriving DecidableEq

/-- What a commitment binds. -/
structure CommitmentParams where
  typeHash : Fixed 32
  protocolId : Fixed 32
  registry : Address
  chain : ℕ
  name : Bytes
  unifiedAddress : Bytes
  registrant : Address
  secret : Fixed 32

structure Signature where
  r : Fixed 32
  s : Fixed 32
  recoveryId : ℕ

/-- The functions of other packages. -/
structure Packages where
  /-- `str::parse::<Address>`. -/
  parseAddress : Bytes → Option Address
  /-- `Address::to_checksum(None)`. -/
  toChecksum : Address → Bytes
  /-- `str::parse::<B256>`. -/
  parseB256 : Bytes → Option (Fixed 32)
  keccak256 : Bytes → Fixed 32
  /-- `SolCall::abi_encode`. -/
  abiEncode : Call → Bytes
  /-- `swapCall::abi_decode(.., true)`. -/
  abiDecodeSwap : Bytes → Option SwapExecutionParams
  /-- `SolValue::abi_encode_params` of a commitment. -/
  abiEncodeParams : CommitmentParams → Bytes
  SigningKey : Type
  /-- The uncompressed point of the verifying key. -/
  encodedPoint : SigningKey → Bytes
  /-- `SigningKey::sign_prehash_recoverable`. -/
  signPrehash : SigningKey → Fixed 32 → Option Signature

variable (P : Packages)

def address (value : Bytes) : Except String Address :=
  orError (P.parseAddress value) "Invalid EVM address"

/-- An unsigned decimal number of 256 bits. -/
def number (value : Bytes) : Except String U256 := do
  ensure (value ≠ [] ∧ value.all isDigit)
    "Amounts must be unsigned decimal integer strings"
  if h : ofDecimal value < 2 ^ 256 then return ⟨ofDecimal value, h⟩
  else .error "Amount exceeds uint256"

def hexPrefix : Bytes := ascii "0x"

def bytes (value : Bytes) : Except String Bytes := do
  ensure (hexPrefix.isPrefixOf value) "Hex must start with 0x"
  orError (Hex.decode (value.drop hexPrefix.length)) "Invalid hex"

def protocolId : Bytes :=
  ascii "0x341e17a38bbce04892f4e0d0ff4a570669fb9e5addb830fd0bee83cd44ce0520"

/-- The address that stands for native ETH in a swap. -/
def nativeToken : Bytes := ascii "0xEeeeeEeeeEeEeeEeEeEeeEEEeeeeEeeeeeeeEEeE"

/-- The text whose hash is the type of a commitment. -/
def commitmentType : Bytes :=
  ascii ("ZNS commitment(bytes32 protocolId,address registry,uint256 chainId,string name," ++
    "string unifiedAddress,address registrant,bytes32 secret)")

def commitment (registry : Address) (chain : ℕ) (name unifiedAddress : Bytes) (owner : Address)
    (secret : Fixed 32) : Except String (Fixed 32) := do
  let protocol ← orError (P.parseB256 protocolId) "fixed protocol identifier"
  return P.keccak256 (P.abiEncodeParams
    { typeHash := P.keccak256 commitmentType, protocolId := protocol, registry, chain, name,
      unifiedAddress, registrant := owner, secret })

/-- Canonical calldata of a swap of native ETH for the tokens of the owner. -/
def validateSwap (data value minimumOutput : Bytes) (owner token : Address) (maxValue : U256) :
    Except String Bytes := do
  let data ← bytes data
  ensure (data.length ≤ 64 * 1024) "Swap calldata is too large"
  let execution ← orError (P.abiDecodeSwap data) "Unsupported or malformed Kyber swap calldata"
  ensure (P.abiEncode (.swap execution) = data) "Noncanonical swap calldata"
  let desc := execution.desc
  let amount ← number value
  let minimum ← number minimumOutput
  let native ← address P nativeToken
  ensure (desc.srcToken = native ∧ desc.dstToken = token ∧ desc.dstReceiver = owner)
    "Swap must exchange native ETH for this account's cbZEC"
  ensure (amount ≠ 0 ∧ amount ≤ maxValue ∧ desc.amount = amount ∧ minimum ≠ 0 ∧
      minimum ≤ desc.minReturnAmount)
    "Swap amount or minimum output exceeds the reviewed intent"
  ensure ((desc.flags = 0 ∨ desc.flags = 512) ∧ desc.permit = [] ∧ desc.feeReceivers = [] ∧
      desc.feeAmounts = [] ∧ desc.srcReceivers = [] ∧ desc.srcAmounts = [])
    "Unsupported swap flags, fees, source distribution, or permit"
  ensure (execution.approveTarget = zeroAddress ∧ execution.callTarget ≠ zeroAddress)
    "Native swap must not request token approval"
  return data

end VizorWallet.Zns
