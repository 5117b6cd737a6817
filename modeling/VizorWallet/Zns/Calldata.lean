import VizorWallet.Library.Abi
import VizorWallet.Zns.Abi
import Mathlib.Logic.Equiv.List
import Mathlib.Tactic.DeriveCountable

/-!
# The calldata of the calls

The selector of each function and its encoded arguments.

## Main definitions

* `Call.selector`, `Call.parts` — the function of a call and its arguments.
* `Call.Sized` — no argument is longer than its length word can say.
* `Call.encode` — the calldata.

## Main results

* `Call.encode_injective` — different calls have different calldata.
-/

namespace VizorWallet.Zns

open Abi (Part Comparable Codes)

/-! ## Arguments -/

def addressPart (a : Address) : Part := .inPlace (List.replicate 12 0 ++ a.val)

def hashPart (hash : Fixed 32) : Part := .inPlace hash.val

def numberPart (n : U256) : Part := .inPlace (Abi.word n.val)

def bytesPart (b : Bytes) : Part := .behind (Abi.bytes b)

def executionPart (e : Execution) : Part :=
  .behind (Abi.tuple [addressPart e.target, numberPart e.value, bytesPart e.data])

def addressesPart (as : List Address) : Part := .behind (Abi.array (as.map addressPart))

def numbersPart (ns : List U256) : Part := .behind (Abi.array (ns.map numberPart))

def executionsPart (es : List Execution) : Part := .behind (Abi.array (es.map executionPart))

def descriptionPart (d : SwapDescription) : Part :=
  .behind (Abi.tuple [addressPart d.srcToken, addressPart d.dstToken,
    addressesPart d.srcReceivers, numbersPart d.srcAmounts, addressesPart d.feeReceivers,
    numbersPart d.feeAmounts, addressPart d.dstReceiver, numberPart d.amount,
    numberPart d.minReturnAmount, numberPart d.flags, bytesPart d.permit])

def swapPart (e : SwapExecutionParams) : Part :=
  .behind (Abi.tuple [addressPart e.callTarget, addressPart e.approveTarget,
    bytesPart e.targetData, descriptionPart e.desc, bytesPart e.clientData])

/-- A length that a word can say. -/
def Short {α : Type} (items : List α) : Prop := items.length < 2 ^ 256

instance decidableShort {α : Type} (items : List α) : Decidable (Short items) :=
  inferInstanceAs (Decidable (items.length < 2 ^ 256))

def SwapDescription.Sized (d : SwapDescription) : Prop :=
  Short d.srcReceivers ∧ Short d.srcAmounts ∧ Short d.feeReceivers ∧ Short d.feeAmounts ∧
    Short d.permit

instance decidableSizedDescription (d : SwapDescription) : Decidable d.Sized :=
  inferInstanceAs (Decidable (_ ∧ _))

def SwapExecutionParams.Sized (e : SwapExecutionParams) : Prop :=
  Short e.targetData ∧ Short e.clientData ∧ e.desc.Sized

instance decidableSizedParams (e : SwapExecutionParams) : Decidable e.Sized :=
  inferInstanceAs (Decidable (_ ∧ _))

theorem codes_address : Codes addressPart fun _ => True :=
  Abi.codes_inPlace (n := 32) (fun a => by simp [a.property]) fun _ _ h =>
    Subtype.ext (List.append_cancel_left h)

theorem codes_number : Codes numberPart fun _ => True :=
  Abi.codes_inPlace (n := 32) (fun _ => Abi.length_word _) fun _ _ h =>
    Fin.ext ((Abi.word_inj (Fin.isLt _) (Fin.isLt _)).1 h)

theorem codes_bytes : Codes bytesPart Short := Abi.codes_bytes

theorem codes_addresses : Codes addressesPart Short :=
  codes_address.array.of_imp fun _ h => ⟨h, fun _ _ => trivial⟩

theorem codes_numbers : Codes numbersPart Short :=
  codes_number.array.of_imp fun _ h => ⟨h, fun _ _ => trivial⟩

@[simp] theorem comparable_address (a b : Address) : Comparable (addressPart a) (addressPart b) :=
  codes_address.comparable trivial trivial

@[simp] theorem addressPart_inj {a b : Address} : addressPart a = addressPart b ↔ a = b :=
  codes_address.eq_iff trivial trivial

@[simp] theorem comparable_hash (h h' : Fixed 32) : Comparable (hashPart h) (hashPart h') :=
  .inPlace (h.property.trans h'.property.symm)

@[simp] theorem hashPart_inj {h h' : Fixed 32} : hashPart h = hashPart h' ↔ h = h' := by
  simp [hashPart, Subtype.ext_iff]

@[simp] theorem comparable_number (m n : U256) : Comparable (numberPart m) (numberPart n) :=
  codes_number.comparable trivial trivial

@[simp] theorem numberPart_inj {m n : U256} : numberPart m = numberPart n ↔ m = n :=
  codes_number.eq_iff trivial trivial

theorem codes_execution : Codes executionPart fun e => Short e.data := by
  refine Codes.tuple (fun h h' => ?_) fun {e e'} h h' heq => ?_
  · simp [codes_bytes.comparable h h']
  · cases e
    cases e'
    simpa [codes_bytes.eq_iff h h'] using heq

theorem codes_executions : Codes executionsPart fun es => Short es ∧ ∀ e ∈ es, Short e.data :=
  codes_execution.array

theorem codes_description : Codes descriptionPart SwapDescription.Sized := by
  refine Codes.tuple (fun {d d'} => ?_) (fun {d d'} => ?_) <;>
    rintro ⟨hreceivers, hamounts, hfees, hfeeAmounts, hpermit⟩
      ⟨hreceivers', hamounts', hfees', hfeeAmounts', hpermit'⟩
  · simp [codes_addresses.comparable hreceivers hreceivers',
      codes_numbers.comparable hamounts hamounts', codes_addresses.comparable hfees hfees',
      codes_numbers.comparable hfeeAmounts hfeeAmounts', codes_bytes.comparable hpermit hpermit']
  · intro heq
    cases d
    cases d'
    simpa [codes_addresses.eq_iff hreceivers hreceivers', codes_numbers.eq_iff hamounts hamounts',
      codes_addresses.eq_iff hfees hfees', codes_numbers.eq_iff hfeeAmounts hfeeAmounts',
      codes_bytes.eq_iff hpermit hpermit'] using heq

theorem codes_swap : Codes swapPart SwapExecutionParams.Sized := by
  refine Codes.tuple (fun {e e'} => ?_) (fun {e e'} => ?_) <;>
    rintro ⟨htarget, hclient, hdesc⟩ ⟨htarget', hclient', hdesc'⟩
  · simp [codes_bytes.comparable htarget htarget', codes_bytes.comparable hclient hclient',
      codes_description.comparable hdesc hdesc']
  · intro heq
    cases e
    cases e'
    simpa [codes_bytes.eq_iff htarget htarget', codes_bytes.eq_iff hclient hclient',
      codes_description.eq_iff hdesc hdesc'] using heq

/-! ## Calls -/

/-- The first bytes of the hash of a function's name and argument types. -/
def Call.selector : Call → Bytes
  | .commit _ => [0xf1, 0x4f, 0xcb, 0xc8]
  | .register _ => [0x48, 0x82, 0x45, 0x41]
  | .refresh _ => [0x9c, 0x75, 0xdd, 0x35]
  | .claimRewards _ => [0x09, 0x62, 0xef, 0x79]
  | .release _ => [0x37, 0xbd, 0xc9, 0x9b]
  | .setUnifiedAddress _ _ => [0x0f, 0x42, 0x11, 0x35]
  | .withdrawClaims => [0xb9, 0x72, 0x86, 0x20]
  | .safeTransferFrom _ _ _ => [0x42, 0x84, 0x2e, 0x0e]
  | .approve _ _ => [0x09, 0x5e, 0xa7, 0xb3]
  | .execute _ _ => [0x3a, 0xb3, 0x7b, 0xa0]
  | .swap _ => [0xe2, 0x1f, 0xd0, 0xe9]

def Call.parts : Call → List Part
  | .commit commitment => [hashPart commitment]
  | .register call =>
    [bytesPart call.name, bytesPart call.unifiedAddress, hashPart call.secret,
      numberPart call.maxDeposit, numberPart call.extraDeposit,
      .inPlace (Abi.word call.expectedPricingMode.toNat), numberPart call.deadline]
  | .refresh positionId | .claimRewards positionId | .release positionId => [numberPart positionId]
  | .setUnifiedAddress positionId unifiedAddress =>
    [numberPart positionId, bytesPart unifiedAddress]
  | .withdrawClaims => []
  | .safeTransferFrom source target tokenId =>
    [addressPart source, addressPart target, numberPart tokenId]
  | .approve spender amount => [addressPart spender, numberPart amount]
  | .execute calls deadline => [executionsPart calls, numberPart deadline]
  | .swap execution => [swapPart execution]

/-- No argument is longer than its length word can say. -/
def Call.Sized : Call → Prop
  | .register call => Short call.name ∧ Short call.unifiedAddress
  | .setUnifiedAddress _ unifiedAddress => Short unifiedAddress
  | .execute calls _ => Short calls ∧ ∀ e ∈ calls, Short e.data
  | .swap execution => execution.Sized
  | _ => True

instance decidableSizedCall : DecidablePred Call.Sized
  | .register _ | .execute _ _ => inferInstanceAs (Decidable (_ ∧ _))
  | .setUnifiedAddress _ unifiedAddress => inferInstanceAs (Decidable (Short unifiedAddress))
  | .swap execution => inferInstanceAs (Decidable execution.Sized)
  | .commit _ | .refresh _ | .claimRewards _ | .release _ | .withdrawClaims
  | .safeTransferFrom _ _ _ | .approve _ _ => inferInstanceAs (Decidable True)

theorem Call.length_selector (call : Call) : call.selector.length = 4 := by
  cases call <;> rfl

theorem Call.eq_of_selector {call call' : Call} (h : call.selector = call'.selector) :
    call.ctorIdx = call'.ctorIdx := by
  cases call <;> cases call' <;> first | rfl | cases h

/-- Calls of one function have comparable arguments. -/
theorem Call.comparable_parts {call call' : Call} (h : call.ctorIdx = call'.ctorIdx)
    (hsized : call.Sized) (hsized' : call'.Sized) :
    List.Forall₂ Comparable call.parts call'.parts := by
  match call, call', h with
  | .commit _, .commit _, _ => simp [parts]
  | .register _, .register _, _ =>
    simp [parts, codes_bytes.comparable hsized.1 hsized'.1,
      codes_bytes.comparable hsized.2 hsized'.2, Comparable.inPlace]
  | .refresh _, .refresh _, _ => simp [parts]
  | .claimRewards _, .claimRewards _, _ => simp [parts]
  | .release _, .release _, _ => simp [parts]
  | .setUnifiedAddress _ _, .setUnifiedAddress _ _, _ =>
    simp [parts, codes_bytes.comparable hsized hsized']
  | .withdrawClaims, .withdrawClaims, _ => simp [parts]
  | .safeTransferFrom _ _ _, .safeTransferFrom _ _ _, _ => simp [parts]
  | .approve _ _, .approve _ _, _ => simp [parts]
  | .execute _ _, .execute _ _, _ => simp [parts, codes_executions.comparable hsized hsized']
  | .swap _, .swap _, _ => simp [parts, codes_swap.comparable hsized hsized']

/-- Calls of one function with the same arguments are the same. -/
theorem Call.eq_of_parts {call call' : Call} (h : call.ctorIdx = call'.ctorIdx)
    (hsized : call.Sized) (hsized' : call'.Sized) (heq : call.parts = call'.parts) :
    call = call' := by
  match call, call', h with
  | .commit _, .commit _, _ => simpa [parts] using heq
  | .register r, .register r', _ =>
    have hmode : ∀ m m' : UInt8, Abi.word m.toNat = Abi.word m'.toNat ↔ m = m' := fun m m' =>
      (Abi.word_inj (m.toNat_lt.trans (by norm_num)) (m'.toNat_lt.trans (by norm_num))).trans
        UInt8.toNat_inj
    cases r
    cases r'
    simpa [parts, codes_bytes.eq_iff hsized.1 hsized'.1, codes_bytes.eq_iff hsized.2 hsized'.2,
      hmode] using heq
  | .refresh _, .refresh _, _ => simpa [parts] using heq
  | .claimRewards _, .claimRewards _, _ => simpa [parts] using heq
  | .release _, .release _, _ => simpa [parts] using heq
  | .setUnifiedAddress _ _, .setUnifiedAddress _ _, _ =>
    simpa [parts, codes_bytes.eq_iff hsized hsized'] using heq
  | .withdrawClaims, .withdrawClaims, _ => rfl
  | .safeTransferFrom _ _ _, .safeTransferFrom _ _ _, _ => simpa [parts] using heq
  | .approve _ _, .approve _ _, _ => simpa [parts] using heq
  | .execute _ _, .execute _ _, _ =>
    simpa [parts, codes_executions.eq_iff hsized hsized'] using heq
  | .swap _, .swap _, _ => simpa [parts, codes_swap.eq_iff hsized hsized'] using heq

instance countableUInt8 : Countable UInt8 :=
  Function.Injective.countable fun _ _ => UInt8.toNat_inj.1

deriving instance Countable for Execution
deriving instance Countable for SwapDescription
deriving instance Countable for SwapExecutionParams
deriving instance Countable for RegisterCall
deriving instance Countable for Call

/-- The calldata of a call. A call that is too long has none, and gets a text that no function
starts with. -/
noncomputable def Call.encode (call : Call) : Bytes :=
  if call.Sized then call.selector ++ Abi.tuple call.parts
  else 0 :: decimal (Classical.choose (exists_injective_nat Call) call)

theorem Call.encode_injective : Function.Injective Call.encode := by
  have hzero : ∀ (call : Call) (rest text : Bytes), call.selector ++ rest ≠ 0 :: text := by
    intro call rest text
    cases call <;> simp [selector]
  intro call call' h
  unfold encode at h
  split_ifs at h with hsized hsized' hsized'
  · obtain ⟨hselector, htuple⟩ :=
      List.append_inj h (call.length_selector.trans call'.length_selector.symm)
    have hctor := eq_of_selector hselector
    exact eq_of_parts hctor hsized hsized'
      ((Abi.tuple_inj (comparable_parts hctor hsized hsized')).1 htuple)
  · exact absurd h (hzero _ _ _)
  · exact absurd h.symm (hzero _ _ _)
  · have hdecimal := congrArg ofDecimal (List.cons.inj h).2
    simp only [ofDecimal_decimal] at hdecimal
    exact Classical.choose_spec (exists_injective_nat Call) hdecimal

end VizorWallet.Zns
