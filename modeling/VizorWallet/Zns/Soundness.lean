import VizorWallet.Zns.Calldata
import VizorWallet.Zns.Transaction

/-!
# Signing stays within the reviewed intent

Every signed transaction respects the limits of its configuration, in its own fields and in every
call that its calldata encodes.

## Main definitions

* `Limits` — the addresses and limits that a configuration spells.
* `Encoded` — the calls inside a call.
* `CallWithin`, `ExecutionWithin`, `Within` — a call, what the account executes, a transaction
  respects the limits.

## Main results

* `planOf_within` — the plan of every operation.
* `sign_within` — every signed transaction.
-/

namespace VizorWallet.Zns

variable {P : Packages}

/-- Checksummed addresses parse back, and different calls have different calldata. -/
structure Packages.Lawful (P : Packages) : Prop where
  parseAddress_toChecksum : ∀ target, P.parseAddress (P.toChecksum target) = some target
  abiEncode_injective : Function.Injective P.abiEncode

/-! ## Reading a configuration -/

structure Limits where
  registry : Address
  token : Address
  router : Option Address
  delegate : Option Address
  maxValue : U256
  maxTotalFee : U256
  maxToken : U256

/-- The limits that a configuration spells. -/
structure Config.Reads (P : Packages) (config : Config) (limits : Limits) : Prop where
  registry : address P config.registry = .ok limits.registry
  token : address P config.token = .ok limits.token
  router : ∀ text, config.router = some text → ∃ target, address P text = .ok target ∧
    limits.router = some target
  delegate : ∀ text, config.delegate = some text → ∃ target, address P text = .ok target ∧
    limits.delegate = some target
  maxValue : number config.maxValueWei = .ok limits.maxValue
  maxTotalFee : number config.maxTotalFeeWei = .ok limits.maxTotalFee
  maxToken : number config.maxTokenAmount = .ok limits.maxToken

@[simp] theorem address_eq_ok {text : Bytes} {target : Address} :
    address P text = .ok target ↔ P.parseAddress text = some target :=
  orError_eq_ok

theorem exists_number_of_validateLimit {limit : Bytes} {u : Unit}
    (h : validateLimit limit = .ok u) : ∃ value, number limit = .ok value := by
  simp only [validateLimit, bind_eq_ok] at h
  obtain ⟨value, hvalue, -⟩ := h
  exact ⟨value, hvalue⟩

/-- An address field that may be absent. -/
theorem exists_optional {field : Option Bytes}
    (h : ∀ text, field = some text → ∃ target, address P text = .ok target) :
    ∃ parsed : Option Address, ∀ text, field = some text →
      ∃ target, address P text = .ok target ∧ parsed = some target := by
  cases field with
  | none => exact ⟨none, by simp⟩
  | some text =>
    obtain ⟨target, htarget⟩ := h text rfl
    refine ⟨some target, fun text' heq => ?_⟩
    cases heq
    exact ⟨target, htarget, rfl⟩

theorem exists_address_of_validateRouter {chainId : ℕ} {router : Option Bytes} {u : Unit}
    (h : validateRouter P chainId router = .ok u) {text : Bytes} (heq : router = some text) :
    ∃ target, address P text = .ok target := by
  rw [heq, validateRouter] at h
  obtain ⟨target, htarget, -⟩ := bind_eq_ok.1 h
  exact ⟨target, htarget⟩

theorem exists_address_of_validateDelegate {delegate : Option Bytes} {u : Unit}
    (h : validateDelegate P delegate = .ok u) {text : Bytes} (heq : delegate = some text) :
    ∃ target, address P text = .ok target := by
  rw [heq, validateDelegate] at h
  obtain ⟨target, htarget, -⟩ := bind_eq_ok.1 h
  exact ⟨target, htarget⟩

/-- A valid configuration spells limits. -/
theorem Config.exists_reads {config : Config} {u : Unit} (h : config.validate P = .ok u) :
    ∃ limits, config.Reads P limits := by
  simp only [Config.validate, bind_eq_ok] at h
  obtain ⟨_, -, _, -, _, -, _, -, registry, hregistry, token, htoken, _, -, _, -, _, hrouter, _,
    hdelegate, maxValue, hmaxValue, _, -, _, -, _, htotal, htokens⟩ := h
  obtain ⟨maxTotalFee, hmaxTotalFee⟩ := exists_number_of_validateLimit htotal
  obtain ⟨maxToken, hmaxToken⟩ := exists_number_of_validateLimit htokens
  obtain ⟨router, hrouter⟩ :=
    exists_optional fun text => exists_address_of_validateRouter hrouter
  obtain ⟨delegate, hdelegate⟩ :=
    exists_optional fun text => exists_address_of_validateDelegate hdelegate
  exact ⟨⟨registry, token, router, delegate, maxValue, maxTotalFee, maxToken⟩, hregistry, htoken,
    hrouter, hdelegate, hmaxValue, hmaxTotalFee, hmaxToken⟩

/-! ## Calls inside calls -/

/-- The calls that a call makes. -/
def Call.inner : Call → List Execution
  | .execute calls _ => calls
  | _ => []

/-- An execution encodes a call, in its own calldata or in a call inside it. -/
inductive Encoded (P : Packages) : Execution → Execution → Call → Prop
  | self {e : Execution} {call : Call} (h : e.data = P.abiEncode call) : Encoded P e e call
  | inner {e i e' : Execution} {call call' : Call} (h : e.data = P.abiEncode call)
      (hmem : i ∈ call.inner) (hin : Encoded P i e' call') : Encoded P e e' call'

theorem Encoded.cases_of_data (hP : P.Lawful) {e e' : Execution} {call call' : Call}
    (hdata : e.data = P.abiEncode call) (h : Encoded P e e' call') :
    (e' = e ∧ call' = call) ∨ ∃ i ∈ call.inner, Encoded P i e' call' := by
  cases h with
  | self h => exact .inl ⟨rfl, hP.abiEncode_injective (h.symm.trans hdata)⟩
  | inner h hmem hin =>
    obtain rfl := hP.abiEncode_injective (h.symm.trans hdata)
    exact .inr ⟨_, hmem, hin⟩

/-- The quote that an operation reviews. -/
def Operation.quote : Operation → Option Swap
  | .swap quote => some quote
  | .atomicRegister _ _ _ _ _ _ _ quote _ _ => quote
  | _ => none

def Operation.isAtomic : Operation → Bool
  | .atomicRegister .. => true
  | _ => false

/-- A swap of the reviewed amount of native ETH into the tokens of the owner. -/
structure SwapWithin (P : Packages) (limits : Limits) (owner : Address) (quote : Swap)
    (e : Execution) (execution : SwapExecutionParams) : Prop where
  router : limits.router = some e.target
  value : number quote.value = .ok e.value
  amount : execution.desc.amount = e.value
  srcToken : address P nativeToken = .ok execution.desc.srcToken
  dstToken : execution.desc.dstToken = limits.token
  dstReceiver : execution.desc.dstReceiver = owner
  minimum : ∃ minimum, number quote.minimumOutput = .ok minimum ∧
    minimum ≤ execution.desc.minReturnAmount
  fees : execution.desc.feeReceivers = [] ∧ execution.desc.feeAmounts = []
  permit : execution.desc.permit = []
  approveTarget : execution.approveTarget = zeroAddress

/-- A call respects the limits. -/
def CallWithin (P : Packages) (limits : Limits) (owner : Address) (operation : Operation)
    (e : Execution) : Call → Prop
  | .approve spender amount =>
    e.target = limits.token ∧ spender = limits.registry ∧ amount ≤ limits.maxToken
  | .register call =>
    e.target = limits.registry ∧ 0 < call.maxDeposit ∧ call.maxDeposit ≤ limits.maxToken ∧
      call.extraDeposit < call.maxDeposit ∧ call.expectedPricingMode ≤ 1 ∧ 0 < call.deadline
  | .swap execution =>
    ∃ quote, operation.quote = some quote ∧ SwapWithin P limits owner quote e execution
  | _ => True

/-- A single call that respects the limits. -/
def Single (P : Packages) (limits : Limits) (owner : Address) (operation : Operation)
    (e : Execution) : Prop :=
  ∃ call, e.data = P.abiEncode call ∧ call.inner = [] ∧ CallWithin P limits owner operation e call

theorem Single.callWithin (hP : P.Lawful) {limits : Limits} {owner : Address}
    {operation : Operation} {e e' : Execution} {call : Call}
    (h : Single P limits owner operation e) (hin : Encoded P e e' call) :
    CallWithin P limits owner operation e' call := by
  obtain ⟨call', hdata, hinner, hwithin⟩ := h
  obtain ⟨rfl, rfl⟩ | ⟨i, hi, -⟩ := Encoded.cases_of_data hP hdata hin
  · exact hwithin
  · simp [hinner] at hi

/-- What an account executes respects the limits. -/
structure ExecutionWithin (P : Packages) (limits : Limits) (owner : Address)
    (operation : Operation) (e : Execution) (call : Call) : Prop where
  destination : e.target = limits.registry ∨ e.target = limits.token ∨
    limits.router = some e.target ∨ e.target = owner
  encodes : e.data = P.abiEncode call
  /-- The inner calls make no further calls. -/
  flat : ∀ i ∈ call.inner, ∃ call', i.data = P.abiEncode call' ∧ call'.inner = []
  wei : e.value.val + (call.inner.map fun i => i.value.val).sum ≤ limits.maxValue.val
  calls : ∀ e' call', Encoded P e e' call' → CallWithin P limits owner operation e' call'

section Execution

variable {limits : Limits} {owner : Address} {operation : Operation} {e : Execution} {call : Call}

theorem ExecutionWithin.of_single (hP : P.Lawful)
    (hdestination : e.target = limits.registry ∨ e.target = limits.token ∨
      limits.router = some e.target ∨ e.target = owner)
    (hdata : e.data = P.abiEncode call) (hinner : call.inner = [])
    (hvalue : e.value ≤ limits.maxValue) (hcall : CallWithin P limits owner operation e call) :
    ExecutionWithin P limits owner operation e call where
  destination := hdestination
  encodes := hdata
  flat := by simp [hinner]
  wei := by simpa [hinner] using hvalue
  calls _ _ hin := Single.callWithin hP ⟨call, hdata, hinner, hcall⟩ hin

/-- A batch that the account sends to itself, spending what the batch spends. -/
theorem ExecutionWithin.of_batch (hP : P.Lawful) {calls : List Execution} {deadline : U256}
    (hsingle : ∀ i ∈ calls, Single P limits owner operation i)
    (hwei : (calls.map fun i => i.value.val).sum ≤ limits.maxValue.val) :
    ExecutionWithin P limits owner operation ⟨owner, 0, P.abiEncode (.execute calls deadline)⟩
      (.execute calls deadline) where
  destination := .inr (.inr (.inr rfl))
  encodes := rfl
  flat i hi := by
    obtain ⟨call, hdata, hinner, -⟩ := hsingle i hi
    exact ⟨call, hdata, hinner⟩
  wei := by simpa [Call.inner] using hwei
  calls e' call' hin := by
    obtain ⟨rfl, rfl⟩ | ⟨i, hi, hin⟩ := Encoded.cases_of_data hP rfl hin
    · trivial
    · exact (hsingle i hi).callWithin hP hin

end Execution

/-! ## The calls of the operations -/

section Calls

variable {config : Config} {limits : Limits} {owner : Address} {operation : Operation}

/-- A number read twice is the same. -/
theorem number_unique {text : Bytes} {n n' : U256} (h : number text = .ok n)
    (h' : number text = .ok n') : n = n' :=
  Except.ok.inj (h.symm.trans h')

theorem approval_single (hreads : config.Reads P limits) {amount data : Bytes}
    (h : approval P config limits.registry amount = .ok data) :
    Single P limits owner operation ⟨limits.token, 0, data⟩ := by
  simp only [approval, bind_eq_ok, ensure_eq_ok, pure_eq_ok] at h
  obtain ⟨amount, -, limit, hlimit, _, hle, rfl⟩ := h
  obtain rfl := number_unique hlimit hreads.maxToken
  exact ⟨_, rfl, rfl, rfl, rfl, hle⟩

theorem registration_single (hreads : config.Reads P limits)
    {name unifiedAddress secret maxDeposit extraDeposit deadline : Bytes} {mode : UInt8}
    {call : RegisterCall}
    (h : registration P config name unifiedAddress secret maxDeposit extraDeposit mode deadline =
      .ok call) :
    Single P limits owner operation ⟨limits.registry, 0, P.abiEncode (.register call)⟩ := by
  simp only [registration, registrationLimits, bind_eq_ok, ensure_eq_ok, pure_eq_ok] at h
  obtain ⟨_, -, _, ⟨max, -, extra, -, deadline, -, limit, hlimit, _, hmax, _, hextra, _, hmode, _,
    hdeadline, rfl⟩, secret, -, rfl⟩ := h
  obtain rfl := number_unique hlimit hreads.maxToken
  exact ⟨_, rfl, rfl, rfl, Fin.pos_iff_ne_zero.2 hmax.1, hmax.2, hextra, hmode,
    Fin.pos_iff_ne_zero.2 hdeadline⟩

/-- What a validated swap says. -/
theorem validateSwap_eq_ok {data value minimumOutput canonical : Bytes} {token : Address}
    {maxValue : U256}
    (h : validateSwap P data value minimumOutput owner token maxValue = .ok canonical) :
    ∃ execution amount minimum, canonical = P.abiEncode (.swap execution) ∧
      number value = .ok amount ∧ number minimumOutput = .ok minimum ∧
      address P nativeToken = .ok execution.desc.srcToken ∧ execution.desc.dstToken = token ∧
      execution.desc.dstReceiver = owner ∧ amount ≤ maxValue ∧ execution.desc.amount = amount ∧
      minimum ≤ execution.desc.minReturnAmount ∧ execution.desc.permit = [] ∧
      execution.desc.feeReceivers = [] ∧ execution.desc.feeAmounts = [] ∧
      execution.approveTarget = zeroAddress := by
  simp only [validateSwap, bind_eq_ok, ensure_eq_ok, orError_eq_ok, pure_eq_ok] at h
  obtain ⟨data, -, _, -, execution, -, _, hcanonical, amount, hamount, minimum, hminimum, native,
    hnative, _, ⟨rfl, hdst, hreceiver⟩, _, ⟨-, hle, hequal, -, hmin⟩, _,
    ⟨-, hpermit, hfees, hfeeAmounts, -, -⟩, _, ⟨happrove, -⟩, rfl⟩ := h
  exact ⟨execution, amount, minimum, hcanonical.symm, hamount, hminimum, hnative, hdst, hreceiver,
    hle, hequal, hmin, hpermit, hfees, hfeeAmounts, happrove⟩

theorem swapExecution_single (hreads : config.Reads P limits) {quote : Swap} {e : Execution}
    (hquote : operation.quote = some quote)
    (h : swapExecution P config owner limits.token quote = .ok e) :
    Single P limits owner operation e ∧ e.value ≤ limits.maxValue ∧
      limits.router = some e.target := by
  simp only [swapExecution, bind_eq_ok, orError_eq_ok, pure_eq_ok] at h
  obtain ⟨text, htext, target, htarget, maxValue, hmaxValue, data, hdata, _, -, value, hvalue,
    rfl⟩ := h
  obtain rfl := number_unique hmaxValue hreads.maxValue
  obtain ⟨target', htarget', hrouter⟩ := hreads.router text htext
  obtain rfl := Except.ok.inj (htarget.symm.trans htarget')
  obtain ⟨execution, amount, minimum, rfl, hamount, hminimum, hnative, hdst, hreceiver, hle,
    hequal, hmin, hpermit, hfees, hfeeAmounts, happrove⟩ := validateSwap_eq_ok hdata
  obtain rfl := number_unique hamount hvalue
  refine ⟨⟨.swap execution, rfl, rfl, quote, hquote, ?_⟩, hle, hrouter⟩
  exact {
    router := hrouter, value := hvalue, amount := hequal, srcToken := hnative, dstToken := hdst
    dstReceiver := hreceiver, minimum := ⟨minimum, hminimum, hmin⟩, fees := ⟨hfees, hfeeAmounts⟩
    permit := hpermit, approveTarget := happrove }

/-- The funding of an atomic registration spends at most the limit. -/
theorem fundingCalls_single (hreads : config.Reads P limits) {quote : Option Swap}
    {amount existing : Bytes} {calls : List Execution} (hquote : operation.quote = quote)
    (h : fundingCalls P config owner limits.token amount existing quote = .ok calls) :
    (∀ i ∈ calls, Single P limits owner operation i) ∧
      (calls.map fun i => i.value.val).sum ≤ limits.maxValue.val := by
  cases quote with
  | none =>
    obtain rfl := Except.ok.inj h
    simp
  | some quote =>
    simp only [fundingCalls, bind_eq_ok, pure_eq_ok] at h
    obtain ⟨e, he, _, -, rfl⟩ := h
    obtain ⟨hsingle, hle, -⟩ := swapExecution_single hreads hquote he
    exact ⟨by simpa using hsingle, by simpa using hle⟩

/-- The plan of every operation respects the limits, and only an atomic registration asks for an
authorization. -/
theorem planOf_within (hP : P.Lawful) (hreads : config.Reads P limits) {plan : Plan}
    (h : planOf P config owner limits.registry limits.token operation = .ok plan) :
    plan.authorizationRequired = operation.isAtomic ∧
      ∃ call, ExecutionWithin P limits owner operation ⟨plan.target, plan.value, plan.data⟩
        call := by
  -- a call of the registry that moves no money and is neither an approval nor a swap
  have hregistry : ∀ call : Call, call.inner = [] →
      CallWithin P limits owner operation ⟨limits.registry, 0, P.abiEncode call⟩ call →
      ∃ call', ExecutionWithin P limits owner operation
        ⟨limits.registry, 0, P.abiEncode call⟩ call' :=
    fun call hinner hcall =>
      ⟨call, .of_single hP (.inl rfl) rfl hinner (Fin.zero_le _) hcall⟩
  cases operation with
  | commit name unifiedAddress secret =>
    simp only [planOf, bind_eq_ok, pure_eq_ok] at h
    obtain ⟨_, -, _, -, hash, -, rfl⟩ := h
    exact ⟨rfl, hregistry _ rfl trivial⟩
  | approve amount =>
    simp only [planOf, bind_eq_ok, pure_eq_ok] at h
    obtain ⟨data, hdata, rfl⟩ := h
    obtain ⟨call, hcall, hinner, hwithin⟩ := approval_single hreads hdata
    exact ⟨rfl, call, .of_single hP (.inr (.inl rfl)) hcall hinner (Fin.zero_le _) hwithin⟩
  | register name unifiedAddress secret maxDeposit extraDeposit mode deadline =>
    simp only [planOf, bind_eq_ok, pure_eq_ok] at h
    obtain ⟨call, hcall, rfl⟩ := h
    obtain ⟨call', hdata, hinner, hwithin⟩ := registration_single hreads hcall
    exact ⟨rfl, call', .of_single hP (.inl rfl) hdata hinner (Fin.zero_le _) hwithin⟩
  | refresh positionId =>
    simp only [planOf, bind_eq_ok, pure_eq_ok] at h
    obtain ⟨id, -, rfl⟩ := h
    exact ⟨rfl, hregistry _ rfl trivial⟩
  | claimRewards positionId =>
    simp only [planOf, bind_eq_ok, pure_eq_ok] at h
    obtain ⟨id, -, rfl⟩ := h
    exact ⟨rfl, hregistry _ rfl trivial⟩
  | release positionId =>
    simp only [planOf, bind_eq_ok, pure_eq_ok] at h
    obtain ⟨id, -, rfl⟩ := h
    exact ⟨rfl, hregistry _ rfl trivial⟩
  | update positionId unifiedAddress =>
    simp only [planOf, bind_eq_ok, pure_eq_ok] at h
    obtain ⟨_, -, id, -, rfl⟩ := h
    exact ⟨rfl, hregistry _ rfl trivial⟩
  | transfer positionId recipient =>
    simp only [planOf, bind_eq_ok, pure_eq_ok] at h
    obtain ⟨recipient, -, _, -, id, -, rfl⟩ := h
    exact ⟨rfl, hregistry _ rfl trivial⟩
  | withdrawClaims =>
    simp only [planOf, pure_eq_ok] at h
    obtain rfl := h
    exact ⟨rfl, hregistry _ rfl trivial⟩
  | swap quote =>
    simp only [planOf, bind_eq_ok, pure_eq_ok] at h
    obtain ⟨e, he, rfl⟩ := h
    have hquote : (Operation.swap quote).quote = some quote := rfl
    obtain ⟨⟨call, hdata, hinner, hwithin⟩, hle, hrouter⟩ := swapExecution_single hreads hquote he
    exact ⟨rfl, call, .of_single hP (.inr (.inr (.inl hrouter))) hdata hinner hle hwithin⟩
  | atomicRegister name unifiedAddress secret maxDeposit extraDeposit mode amount quote deadline
      existing =>
    simp only [planOf, bind_eq_ok, pure_eq_ok] at h
    obtain ⟨call, hcall, _, -, _, -, _, -, funding, hfunding, data, hdata, rfl⟩ := h
    have hquote : (Operation.atomicRegister name unifiedAddress secret maxDeposit extraDeposit mode
      amount quote deadline existing).quote = quote := rfl
    obtain ⟨hsingle, hwei⟩ := fundingCalls_single hreads hquote hfunding
    refine ⟨rfl, _, .of_batch hP ?_ (by simpa using hwei)⟩
    intro i hi
    simp only [List.mem_append, List.mem_cons, List.not_mem_nil, or_false] at hi
    obtain hi | rfl | rfl := hi
    · exact hsingle i hi
    · exact approval_single hreads hdata
    · exact registration_single hreads hcall

end Calls

/-! ## Signed transactions -/

@[simp] theorem number_decimal (n : U256) : number (decimal n.val) = .ok n := by
  have hdigits : (decimal n.val).all isDigit :=
    List.all_eq_true.2 fun b hb => isDigit_of_mem_decimal hb
  unfold number
  refine bind_eq_ok.2 ⟨(), ensure_of _ ⟨decimal_ne_nil _, hdigits⟩, ?_⟩
  simp [ofDecimal_decimal]

@[simp] theorem bytes_hexText (data : Bytes) : bytes (hexText data) = .ok data := by
  have hbefore : hexPrefix.isPrefixOf (hexText data) := by simp [hexText]
  unfold bytes
  refine bind_eq_ok.2 ⟨(), ensure_of _ hbefore, ?_⟩
  simp [hexText, Hex.decode_encode]

/-- A transaction respects the configuration that spells the limits. -/
structure Within (P : Packages) (config : Config) (limits : Limits) (owner : Address)
    (operation : Operation) (tx : RawTransaction) (call : Call) (l1Fee : U256) : Prop where
  execution : ExecutionWithin P limits owner operation ⟨tx.target, tx.value, tx.data⟩ call
  fee : tx.gasLimit.val * tx.maxFeePerGas.val + l1Fee.val ≤ limits.maxTotalFee.val
  chainId : tx.chainId = config.chainId
  /-- An authorization comes with an atomic registration and with nothing else. -/
  authorized : tx.authorization.isSome = operation.isAtomic
  authorization : ∀ auth ∈ tx.authorization, limits.delegate = some auth.1.delegate ∧
    auth.1.chainId = config.chainId ∧ auth.1.nonce = tx.nonce + 1

theorem authorizationNonce_eq_ok {nonce : ℕ} {required : Bool} {authNonce : Option ℕ}
    (h : authorizationNonce nonce required = .ok authNonce) :
    authNonce = if required then some (nonce + 1) else none := by
  cases required with
  | false => exact (Except.ok.inj h).symm
  | true =>
    simp only [authorizationNonce, if_true] at h ⊢
    cases hnext : (checkedAdd nonce 1).filter (· < u64Size - 1) with
    | none => simp [hnext, orError, Except.map] at h
    | some next =>
      obtain ⟨hadd, -⟩ := Option.filter_eq_some_iff.1 hnext
      have hvalue : next = nonce + 1 := by
        simp only [checkedAdd] at hadd
        split_ifs at hadd
        exact (Option.some.inj hadd).symm
      simp only [hnext, orError_some, Except.map] at h
      rw [← Except.ok.inj h, hvalue]

theorem authorization_eq_ok {key : P.SigningKey} {config : Config} {limits : Limits}
    (hreads : config.Reads P limits) {nonce : ℕ} {auth : Authorization × Signature}
    (h : authorization P key config nonce = .ok auth) :
    limits.delegate = some auth.1.delegate ∧ auth.1.chainId = config.chainId ∧
      auth.1.nonce = nonce := by
  simp only [authorization, bind_eq_ok, orError_eq_ok, pure_eq_ok] at h
  obtain ⟨text, htext, delegate, hdelegate, signature, -, rfl⟩ := h
  obtain ⟨delegate', hdelegate', hlimit⟩ := hreads.delegate text htext
  obtain rfl := Except.ok.inj (hdelegate.symm.trans hdelegate')
  exact ⟨hlimit, rfl, rfl⟩

/-- The authorization of a transaction is the configured delegate's, with the next nonce. -/
theorem authorization_within {key : P.SigningKey} {config : Config} {limits : Limits}
    (hreads : config.Reads P limits) {nonce : ℕ} {required : Bool} {authNonce : Option ℕ}
    {auth : Option (Authorization × Signature)}
    (hnonce : authorizationNonce nonce required = .ok authNonce)
    (h : authorizationFor P key config authNonce = .ok auth) :
    auth.isSome = required ∧ ∀ a ∈ auth, limits.delegate = some a.1.delegate ∧
      a.1.chainId = config.chainId ∧ a.1.nonce = nonce + 1 := by
  obtain rfl := authorizationNonce_eq_ok hnonce
  cases required with
  | false =>
    obtain rfl := Except.ok.inj h
    simp
  | true =>
    simp only [if_true, authorizationFor] at h
    cases ha : authorization P key config (nonce + 1) with
    | error e => simp [ha, Except.map] at h
    | ok a =>
      simp only [ha, Except.map] at h
      obtain rfl := Except.ok.inj h
      exact ⟨rfl, by simpa using authorization_eq_ok hreads ha⟩

/-- Preparing loses nothing of the plan. -/
theorem prepare_eq_ok (hP : P.Lawful) {config : Config} {owner : Address} {operation : Operation}
    {prepared : Prepared} (h : prepare P config (P.toChecksum owner) operation = .ok prepared) :
    ∃ limits plan, config.Reads P limits ∧
      planOf P config owner limits.registry limits.token operation = .ok plan ∧
      address P prepared.target = .ok plan.target ∧ number prepared.value = .ok plan.value ∧
      bytes prepared.data = .ok plan.data ∧
      prepared.authorizationRequired = plan.authorizationRequired := by
  simp only [prepare, bind_eq_ok, ensure_eq_ok, pure_eq_ok] at h
  obtain ⟨_, hvalid, owner', howner, _, -, registry, hregistry, token, htoken, plan, hplan,
    rfl⟩ := h
  obtain ⟨limits, hreads⟩ := Config.exists_reads hvalid
  obtain rfl : owner' = owner := by
    rw [address_eq_ok, hP.parseAddress_toChecksum] at howner
    exact (Option.some.inj howner).symm
  obtain rfl := Except.ok.inj (hregistry.symm.trans hreads.registry)
  obtain rfl := Except.ok.inj (htoken.symm.trans hreads.token)
  exact ⟨limits, plan, hreads, hplan, address_eq_ok.2 (hP.parseAddress_toChecksum _),
    number_decimal _, bytes_hexText _, rfl⟩

/-- Every signed transaction stays within the limits of its configuration. -/
theorem sign_within (hP : P.Lawful) {key : P.SigningKey} {config : Config} {operation : Operation}
    {transaction : Transaction} {signed : SignedTransaction}
    (h : sign P key config operation transaction = .ok signed) :
    ∃ limits tx signature call l1Fee, config.Reads P limits ∧
      number transaction.l1FeeWei = .ok l1Fee ∧
      P.signPrehash key (P.keccak256 tx.payload) = some signature ∧
      signed.rawTransaction = hexText (tx.encode signature) ∧
      Within P config limits (keyAddress P key) operation tx call l1Fee := by
  simp only [sign, bind_eq_ok, ensure_eq_ok, orError_eq_ok, pure_eq_ok] at h
  obtain ⟨prepared, hprepared, nonce, -, _, -, gas, -, maxFee, -, priority, -, l1Fee, hl1, maxGas,
    -, maxFeeLimit, -, _, -, _, -, _, -, maxTotalFee, htotal, _, hfee, authNonce, hnonce, auth,
    hauth, target, htarget, value, hvalue, data, hdata, signature, hsigned, rfl⟩ := h
  obtain ⟨limits, plan, hreads, hplan, htarget', hvalue', hdata', hrequired⟩ :=
    prepare_eq_ok hP hprepared
  obtain rfl := Except.ok.inj (htarget.symm.trans htarget')
  obtain rfl := Except.ok.inj (hvalue.symm.trans hvalue')
  obtain rfl := Except.ok.inj (hdata.symm.trans hdata')
  obtain rfl := number_unique htotal hreads.maxTotalFee
  obtain ⟨hatomic, call, hexecution⟩ := planOf_within hP hreads hplan
  obtain ⟨hsome, hdelegate⟩ := authorization_within hreads hnonce hauth
  simp only [signDigest, bind_eq_ok, ensure_eq_ok, orError_eq_ok, pure_eq_ok] at hsigned
  obtain ⟨signature', hsignature, _, -, rfl⟩ := hsigned
  refine ⟨limits, _, signature', call, l1Fee, hreads, hl1, hsignature, rfl, ?_⟩
  exact {
    execution := hexecution, fee := hfee, chainId := rfl
    authorized := hsome.trans (hrequired.trans hatomic), authorization := hdelegate }

/-! ## A signed registration -/

def sampleOwner : Address := ⟨List.replicate 20 0x11, rfl⟩

/-- The reviewed swap of 5000 wei into at least 320 units. -/
def sampleSwap : SwapExecutionParams where
  callTarget := ⟨List.replicate 20 0x66, rfl⟩
  approveTarget := zeroAddress
  targetData := [1, 2, 3, 4]
  desc := {
    srcToken := ⟨List.replicate 20 0xee, rfl⟩
    dstToken := ⟨List.replicate 20 0x22, rfl⟩
    srcReceivers := [], srcAmounts := [], feeReceivers := [], feeAmounts := []
    dstReceiver := sampleOwner, amount := 5000, minReturnAmount := 320, flags := 0, permit := [] }
  clientData := ascii "{}"

/-- The calldata of the calls; addresses of decimal digits, which have no letters to capitalize. -/
noncomputable def samplePackages : Packages where
  parseAddress text := do
    let bytes ← Hex.decode (text.drop 2)
    if h : bytes.length = 20 then some ⟨bytes, h⟩ else none
  toChecksum target := hexText target.val
  parseB256 text := do
    let bytes ← Hex.decode (text.drop 2)
    if h : bytes.length = 32 then some ⟨bytes, h⟩ else none
  keccak256 _ := ⟨List.replicate 32 0x11, rfl⟩
  abiEncode := Call.encode
  abiDecodeSwap data := if data = Call.encode (.swap sampleSwap) then some sampleSwap else none
  abiEncodeParams _ := []
  SigningKey := Unit
  encodedPoint _ := [4]
  signPrehash _ _ := some ⟨⟨List.replicate 32 1, rfl⟩, ⟨List.replicate 32 2, rfl⟩, 0⟩

theorem lawful_samplePackages : samplePackages.Lawful where
  parseAddress_toChecksum target := by
    simp [samplePackages, hexText, hexPrefix, ascii, Hex.decode_encode, target.property]
  abiEncode_injective := Call.encode_injective

def sampleConfig : Config where
  protocolId := protocolId
  chainId := 31337
  registry := ascii "0x3333333333333333333333333333333333333333"
  token := ascii "0x2222222222222222222222222222222222222222"
  router := some (ascii "0x4444444444444444444444444444444444444444")
  delegate := some (ascii "0x5555555555555555555555555555555555555555")
  allowTestChain := true
  maxValueWei := ascii "6000"
  maxGasLimit := ascii "100000"
  maxFeePerGasWei := ascii "50"
  maxTotalFeeWei := ascii "5000000"
  maxTokenAmount := ascii "1000"

def sampleTransaction : Transaction where
  nonce := ascii "7"
  gasLimit := ascii "60000"
  maxFeePerGas := ascii "40"
  maxPriorityFeePerGas := ascii "2"
  l1FeeWei := ascii "10"

/-- A registration for 900 units, 600 of which the account has. -/
noncomputable def sampleRegistration : Operation :=
  .atomicRegister (ascii "alice") (ascii "u1alice")
    (ascii "0x7777777777777777777777777777777777777777777777777777777777777777") (ascii "900")
    (ascii "100") 1 (ascii "900")
    (some ⟨hexText (Call.encode (.swap sampleSwap)), ascii "5000", ascii "300"⟩)
    (ascii "1800000000") (ascii "600")

theorem sign_within_registration :
    ∃ signed limits tx signature call l1Fee,
      sign samplePackages () sampleConfig sampleRegistration sampleTransaction = .ok signed ∧
      signed.rawTransaction = hexText (RawTransaction.encode tx signature) ∧
      Within samplePackages sampleConfig limits (keyAddress samplePackages ())
        sampleRegistration tx call l1Fee := by
  have hok : (sign samplePackages () sampleConfig sampleRegistration
      sampleTransaction).toBool = true := by decide +kernel
  cases hsigned : sign samplePackages () sampleConfig sampleRegistration sampleTransaction with
  | error e =>
    rw [hsigned] at hok
    cases hok
  | ok signed =>
    obtain ⟨limits, tx, signature, call, l1Fee, -, -, -, hraw, hwithin⟩ :=
      sign_within lawful_samplePackages hsigned
    exact ⟨signed, limits, tx, signature, call, l1Fee, rfl, hraw, hwithin⟩

end VizorWallet.Zns
