import VizorWallet.Zns.Abi
import VizorWallet.Machine

/-!
# Intents of the name service

A configuration with signing limits, the eleven operations, and the call that each operation
stands for.

## Main definitions

* `Config.validate` — the checks of a configuration.
* `planOf` — the destination, the value and the calldata of an operation.
* `prepare` — the same as text.
-/

namespace VizorWallet.Zns

structure Config where
  protocolId : Bytes
  chainId : ℕ
  registry : Bytes
  token : Bytes
  router : Option Bytes
  delegate : Option Bytes
  allowTestChain : Bool
  maxValueWei : Bytes
  maxGasLimit : Bytes
  maxFeePerGasWei : Bytes
  maxTotalFeeWei : Bytes
  maxTokenAmount : Bytes

structure Swap where
  data : Bytes
  value : Bytes
  minimumOutput : Bytes

inductive Operation where
  | commit (name unifiedAddress secret : Bytes)
  | approve (amount : Bytes)
  | register (name unifiedAddress secret maxDeposit extraDeposit : Bytes)
      (expectedPricingMode : UInt8) (deadline : Bytes)
  | refresh (positionId : Bytes)
  | claimRewards (positionId : Bytes)
  | release (positionId : Bytes)
  | update (positionId unifiedAddress : Bytes)
  | transfer (positionId recipient : Bytes)
  | withdrawClaims
  | swap (quote : Swap)
  | atomicRegister (name unifiedAddress secret maxDeposit extraDeposit : Bytes)
      (expectedPricingMode : UInt8) (amount : Bytes) (quote : Option Swap)
      (deadline existingTokenUnits : Bytes)

def baseChain : ℕ := 8453

def cbzec : Bytes := ascii "0xB2000000000000000000008501b13360000cb2EC"

def kyber : Bytes := ascii "0x6131B5fae19EA4f9D964eAc0408E4408b66337b5"

def baseExecutor : Bytes := ascii "0x8f10b468b06c6fd214b65f87778827f7d113f996"

/-- A lower-case letter, a digit or a hyphen. -/
def isLabelByte (b : UInt8) : Bool := (0x61 ≤ b && b ≤ 0x7a) || isDigit b || b == 0x2d

def validateName (name : Bytes) : Except String Unit :=
  ensure (name ≠ [] ∧ name.length ≤ 63 ∧ name.head? ≠ some 0x2d ∧ name.getLast? ≠ some 0x2d ∧
      name.all isLabelByte)
    "Use a lowercase ASCII label of 1–63 letters, digits or internal hyphens"

/-- The length of a unified address is admissible. -/
def validateAddressLength (unifiedAddress : Bytes) : Except String Unit :=
  ensure (unifiedAddress ≠ [] ∧ unifiedAddress.length ≤ 512) "Invalid Unified Address length"

def validateRegistration (name unifiedAddress : Bytes) : Except String Unit := do
  validateName name
  validateAddressLength unifiedAddress

variable (P : Packages)

/-- On Base the token is the canonical one. -/
def validateToken (chainId : ℕ) (token : Address) : Except String Unit :=
  if chainId = baseChain then do
    let canonical ← address P cbzec
    ensure (token = canonical) "Base mainnet requires canonical cbZEC"
  else .ok ()

/-- The router is not zero, and on Base it is the reviewed one. -/
def validateRouter (chainId : ℕ) : Option Bytes → Except String Unit
  | none => .ok ()
  | some router => do
    let target ← address P router
    ensure (target ≠ zeroAddress) "Unsupported swap router"
    if chainId = baseChain then do
      let reviewed ← address P kyber
      ensure (target = reviewed) "Unsupported swap router"
    else .ok ()

def validateDelegate : Option Bytes → Except String Unit
  | none => .ok ()
  | some delegate => do
    let target ← address P delegate
    ensure (target ≠ zeroAddress) "Delegate cannot be zero"

/-- A positive limit. -/
def validateLimit (limit : Bytes) : Except String Unit := do
  let value ← number limit
  ensure (value ≠ 0) "Signing limits must be positive"

def Config.validate (config : Config) : Except String Unit := do
  let protocol ← orError (P.parseB256 config.protocolId) "Invalid ZNS protocol identifier"
  let expected ← orError (P.parseB256 Zns.protocolId) "fixed protocol identifier"
  ensure (protocol = expected) "Unsupported ZNS economics or protocol identifier"
  ensure (config.chainId = baseChain ∨
      (config.allowTestChain ∧ config.chainId ∈ [84532, 31337]))
    "Only Base, or explicitly enabled test chains, are supported"
  let registry ← address P config.registry
  let token ← address P config.token
  ensure (registry ≠ zeroAddress ∧ token ≠ zeroAddress) "Registry and token must be configured"
  validateToken P config.chainId token
  validateRouter P config.chainId config.router
  validateDelegate P config.delegate
  let _ ← number config.maxValueWei
  validateLimit config.maxGasLimit
  validateLimit config.maxFeePerGasWei
  validateLimit config.maxTotalFeeWei
  validateLimit config.maxTokenAmount

/-- What is signed for an operation. -/
structure Plan where
  target : Address
  value : U256
  data : Bytes
  commitment : Option (Fixed 32) := none
  authorizationRequired : Bool := false

def parseSecret (secret : Bytes) : Except String (Fixed 32) := do
  let secret ← orError (P.parseB256 secret) "Secret must be 32 bytes"
  ensure (secret.val ≠ List.replicate 32 0) "Secret cannot be zero"
  return secret

def approval (config : Config) (registry : Address) (amount : Bytes) : Except String Bytes := do
  let amount ← number amount
  let limit ← number config.maxTokenAmount
  ensure (amount ≤ limit) "Token approval exceeds reviewed limit"
  return P.abiEncode (.approve registry amount)

def position (id : Bytes) : Except String U256 := do
  let id ← number id
  ensure (id ≠ 0) "Position id must be positive"
  return id

/-- The reviewed deposit ceiling, extra deposit and deadline of a registration. -/
def registrationLimits (config : Config) (maxDeposit extraDeposit : Bytes) (mode : UInt8)
    (deadline : Bytes) : Except String (U256 × U256 × U256) := do
  let max ← number maxDeposit
  let extra ← number extraDeposit
  let deadline ← number deadline
  let limit ← number config.maxTokenAmount
  ensure (max ≠ 0 ∧ max ≤ limit) "Registration deposit exceeds reviewed limit"
  ensure (extra < max) "Extra deposit must leave room for the minimum deposit"
  ensure (mode ≤ 1) "Unsupported registration pricing mode"
  ensure (deadline ≠ 0) "Registration deadline must be positive"
  return (max, extra, deadline)

def validateMainnetExecutor (chainId : ℕ) (data : Bytes) : Except String Unit :=
  if chainId = baseChain then do
    let execution ← orError (P.abiDecodeSwap data) "Invalid swap"
    let executor ← address P baseExecutor
    ensure (execution.callTarget = executor) "Unsupported Base swap executor"
  else .ok ()

/-- The call of a quoted swap. -/
def swapExecution (config : Config) (owner token : Address) (quote : Swap) :
    Except String Execution := do
  let router ← orError config.router "Swap router is not configured"
  let target ← address P router
  let maxValue ← number config.maxValueWei
  let data ← validateSwap P quote.data quote.value quote.minimumOutput owner token maxValue
  validateMainnetExecutor P config.chainId data
  let value ← number quote.value
  return { target, value, data }

/-- The swap of an atomic registration covers what the account lacks. -/
def validateFunding (quote : Swap) (amount existingTokenUnits : Bytes) : Except String Unit := do
  let existing ← number existingTokenUnits
  let required ← number amount
  let minimum ← number quote.minimumOutput
  ensure (existing ≤ required ∧ required.val ≤ minimum.val + existing.val)
    "Swap minimum plus existing cbZEC must cover the exact registration approval"
  ensure (minimum.val + existing.val < 2 ^ 256) "Token amount overflow"

/-- The calls before an atomic registration: the quoted swap, if any. -/
def fundingCalls (config : Config) (owner token : Address) (amount existingTokenUnits : Bytes) :
    Option Swap → Except String (List Execution)
  | none => .ok []
  | some quote => do
    let execution ← swapExecution P config owner token quote
    validateFunding quote amount existingTokenUnits
    return [execution]

/-- The call of a registration, within its reviewed limits. -/
def registration (config : Config) (name unifiedAddress secret maxDeposit extraDeposit : Bytes)
    (mode : UInt8) (deadline : Bytes) : Except String RegisterCall := do
  validateRegistration name unifiedAddress
  let (max, extra, deadline) ← registrationLimits config maxDeposit extraDeposit mode deadline
  let secret ← parseSecret P secret
  return {
    name, unifiedAddress, secret, maxDeposit := max, extraDeposit := extra,
    expectedPricingMode := mode, deadline }

/-- The destination, the value and the calldata of an operation. -/
def planOf (config : Config) (owner registry token : Address) :
    Operation → Except String Plan
  | .commit name unifiedAddress secret => do
    validateRegistration name unifiedAddress
    let secret ← parseSecret P secret
    let hash ← commitment P registry config.chainId name unifiedAddress owner secret
    return {
      target := registry, value := 0, data := P.abiEncode (.commit hash)
      commitment := some hash }
  | .approve amount => do
    let data ← approval P config registry amount
    return { target := token, value := 0, data }
  | .register name unifiedAddress secret maxDeposit extraDeposit mode deadline => do
    let call ← registration P config name unifiedAddress secret maxDeposit extraDeposit mode
      deadline
    return { target := registry, value := 0, data := P.abiEncode (.register call) }
  | .refresh positionId => do
    let id ← position positionId
    return { target := registry, value := 0, data := P.abiEncode (.refresh id) }
  | .claimRewards positionId => do
    let id ← position positionId
    return { target := registry, value := 0, data := P.abiEncode (.claimRewards id) }
  | .release positionId => do
    let id ← position positionId
    return { target := registry, value := 0, data := P.abiEncode (.release id) }
  | .update positionId unifiedAddress => do
    validateAddressLength unifiedAddress
    let id ← position positionId
    return {
      target := registry, value := 0
      data := P.abiEncode (.setUnifiedAddress id unifiedAddress) }
  | .transfer positionId recipient => do
    let recipient ← address P recipient
    ensure (recipient ≠ zeroAddress ∧ recipient ≠ owner ∧ recipient ≠ registry)
      "Invalid NFT transfer recipient"
    let id ← position positionId
    return {
      target := registry, value := 0
      data := P.abiEncode (.safeTransferFrom owner recipient id) }
  | .withdrawClaims =>
    return { target := registry, value := 0, data := P.abiEncode .withdrawClaims }
  | .swap quote => do
    let execution ← swapExecution P config owner token quote
    return { target := execution.target, value := execution.value, data := execution.data }
  | .atomicRegister name unifiedAddress secret maxDeposit extraDeposit mode amount quote deadline
      existingTokenUnits => do
    let call ← registration P config name unifiedAddress secret maxDeposit extraDeposit mode
      deadline
    let approved ← number amount
    ensure (approved = call.maxDeposit)
      "Atomic approval must equal the reviewed deposit ceiling"
    let _ ← orError config.delegate "Atomic registration delegate is not configured"
    let funding ← fundingCalls P config owner token amount existingTokenUnits quote
    let approvalData ← approval P config registry amount
    let calls := funding ++ [⟨token, 0, approvalData⟩,
      ⟨registry, 0, P.abiEncode (.register call)⟩]
    -- the account executes the calls itself and spends its own ETH
    return {
      target := owner, value := 0, data := P.abiEncode (.execute calls call.deadline)
      authorizationRequired := true }

structure Prepared where
  target : Bytes
  value : Bytes
  data : Bytes
  commitment : Option Bytes
  authorizationRequired : Bool

/-- A byte string in hexadecimal. -/
def hexText (data : Bytes) : Bytes := hexPrefix ++ Hex.encode data

def prepare (config : Config) (owner : Bytes) (operation : Operation) :
    Except String Prepared := do
  config.validate P
  let owner ← address P owner
  ensure (owner ≠ zeroAddress) "Owner cannot be zero"
  let registry ← address P config.registry
  let token ← address P config.token
  let plan ← planOf P config owner registry token operation
  return {
    target := P.toChecksum plan.target
    value := decimal plan.value.val
    data := hexText plan.data
    commitment := plan.commitment.map fun hash => hexText hash.val
    authorizationRequired := plan.authorizationRequired }

end VizorWallet.Zns
