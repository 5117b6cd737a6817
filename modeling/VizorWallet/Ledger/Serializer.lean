import VizorWallet.Library.Hex
import VizorWallet.Library.Wire

/-!
# PCZT commands of the Ledger app

The fields of a parsed PCZT, the command packets that carry them to the device, and their transfer.

## Main definitions

* `ParsedPczt` — the fields that the device is sent.
* `serializePczt` — the commands of a PCZT.
* `sendPczt` — the transfer of commands, packet by packet.
-/

namespace VizorWallet.Ledger

def MAX_PACKET_SIZE : ℕ := 255
def MAX_TRANSPARENT_INPUTS : ℕ := 32
def MAX_TRANSPARENT_OUTPUTS : ℕ := 10
def MAX_SHIELDED_ACTIONS : ℕ := 32
def ZCASH_CLA : UInt8 := 0xe0

/-! ## Parsed fields -/

structure Bip32Derivation where
  signingPath : List UInt32
  pubkey : Fixed 33
  seedFingerprint : Fixed 32
  deriving DecidableEq

structure Global where
  txVersion : UInt32
  versionGroupId : UInt32
  consensusBranchId : UInt32
  fallbackLockTime : Option UInt32
  expiryHeight : UInt32
  coinType : UInt32
  txModifiable : UInt8
  deriving DecidableEq

structure TransparentOutput where
  value : UInt64
  scriptPubkey : Bytes
  derivation : Option Bip32Derivation
  deriving DecidableEq

structure TransparentInput where
  prevoutTxid : Fixed 32
  prevoutIndex : UInt32
  sequence : Option UInt32
  value : UInt64
  scriptPubkey : Bytes
  sighashType : UInt8
  derivation : Bip32Derivation
  deriving DecidableEq

structure ShieldedAction where
  cvNet : Fixed 32
  nullifier : Fixed 32
  rk : Fixed 32
  spendRecipient : Fixed 43
  spendValue : UInt64
  spendRho : Fixed 32
  spendRseed : Fixed 32
  alpha : Fixed 32
  signingPath : List UInt32
  seedFingerprint : Fixed 32
  cmx : Fixed 32
  ephemeralKey : Fixed 32
  encCiphertext : Bytes
  outCiphertext : Bytes
  recipient : Fixed 43
  value : UInt64
  rseed : Fixed 32
  rcv : Fixed 32
  deriving DecidableEq

structure ShieldedBundle where
  actions : List ShieldedAction
  flags : UInt8
  valueBalance : ℤ
  anchor : Fixed 32
  deriving DecidableEq

structure IronwoodAction where
  action : ShieldedAction
  notePlaintextVersion : UInt8
  deriving DecidableEq

structure IronwoodBundle where
  actions : List IronwoodAction
  flags : UInt8
  valueBalance : ℤ
  anchor : Fixed 32
  deriving DecidableEq

/-- A parsed PCZT; the parser looks for an Ironwood bundle from transaction version 6 on. -/
structure ParsedPczt where
  global : Global
  transparentInputs : List TransparentInput
  transparentOutputs : List TransparentOutput
  orchardBundle : Option ShieldedBundle
  ironwoodBundle : Option IronwoodBundle
  memoReachesHashPath : Bool
  ironwood_version : ironwoodBundle.isSome → 6 ≤ global.txVersion
  deriving DecidableEq

structure CommandPackets where
  instruction : UInt8
  packets : List Bytes
  finishesPczt : Bool
  deriving DecidableEq

/-! ## Fields -/

def LEDGER_MEMO_HASH_UNSUPPORTED : String := "Update the Ledger Zcash app to sign non-English memos"

def compactSize (value : ℕ) : Except String Bytes :=
  if value < 253 then .ok [UInt8.ofNat value]
  else if value ≤ 0xffff then .ok (253 :: leBytes 2 value)
  else if value ≤ 0xffffffff then .ok (254 :: leBytes 4 value)
  else do
    ensure (value < 2 ^ 64) "Length exceeds CompactSize range"
    return 255 :: leBytes 8 value

def ensureCount (label : String) (count maximum : ℕ) : Except String Unit :=
  ensure (count ≤ maximum)
    s!"ledger_capacity: Ledger supports at most {maximum} {label}; found {count}"

def ensurePacketSize (packet : Bytes) : Except String Unit :=
  ensure (packet.length ≤ MAX_PACKET_SIZE)
    s!"Ledger APDU payload exceeds {MAX_PACKET_SIZE} bytes: {packet.length}"

def packDerivationPath (path : List UInt32) : Except String Bytes := do
  ensure (path.length < 256) "Ledger derivation path is too long"
  let bytes := UInt8.ofNat path.length :: (path.map u32be).flatten
  ensurePacketSize bytes
  return bytes

def serializeBip32Derivation : Option Bip32Derivation → Except String Bytes
  | none => .ok [0]
  | some derivation => do
    let path ← packDerivationPath derivation.signingPath
    let bytes := 1 :: (derivation.pubkey.1 ++ derivation.seedFingerprint.1 ++ path)
    ensurePacketSize bytes
    return bytes

def fieldPackets (field : Bytes) : Except String (List Bytes) := do
  let size ← compactSize field.length
  return chunks MAX_PACKET_SIZE (size ++ field)

/-! ## Commands -/

def serializeHeader (g : Global) : Bytes :=
  ascii "PCZT" ++ u32le (if 6 ≤ g.txVersion then 2 else 1) ++ u32le g.txVersion ++
    u32le g.versionGroupId ++ u32le g.consensusBranchId ++ flagged u32le g.fallbackLockTime ++
    u32le g.expiryHeight ++ u32le g.coinType ++ [g.txModifiable]

/-- The packets of one transparent input. -/
def serializeTransparentInput (input : TransparentInput) : Except String (List Bytes) := do
  let smallFields := input.prevoutTxid.1 ++ u32le input.prevoutIndex ++
    flagged u32le input.sequence ++ u64le input.value
  let script ← fieldPackets input.scriptPubkey
  let derivation ← serializeBip32Derivation (some input.derivation)
  let signingFields := input.sighashType :: derivation
  ensurePacketSize signingFields
  return smallFields :: (script ++ [signingFields])

def serializeTransparentInputs (inputs : List TransparentInput) : Except String (List Bytes) := do
  ensureCount "transparent inputs" inputs.length MAX_TRANSPARENT_INPUTS
  let count ← compactSize inputs.length
  let packets ← inputs.mapM serializeTransparentInput
  return count :: packets.flatten

/-- The packets of one transparent output. -/
def serializeTransparentOutput (output : TransparentOutput) : Except String (List Bytes) := do
  let script ← fieldPackets output.scriptPubkey
  let derivation ← serializeBip32Derivation output.derivation
  return u64le output.value :: (script ++ [derivation])

def serializeTransparentOutputs (outputs : List TransparentOutput) :
    Except String (List Bytes) := do
  ensureCount "transparent outputs" outputs.length MAX_TRANSPARENT_OUTPUTS
  let count ← compactSize outputs.length
  let packets ← outputs.mapM serializeTransparentOutput
  return count :: packets.flatten

def serializeShieldedAction (action : ShieldedAction) (notePlaintextVersion : Option UInt8) :
    Except String (List Bytes) := do
  let spend := action.cvNet.1 ++ action.nullifier.1 ++ action.rk.1 ++ action.spendRecipient.1 ++
    u64le action.spendValue ++ action.spendRho.1 ++ action.spendRseed.1 ++ action.alpha.1
  -- Unlike the transparent derivations, this packet is not measured once it is put together.
  let path ← packDerivationPath action.signingPath
  let derivation := action.seedFingerprint.1 ++ path
  let output := action.cmx.1 ++ action.ephemeralKey.1
  let encCiphertext ← fieldPackets action.encCiphertext
  let outCiphertext ← fieldPackets action.outCiphertext
  let metadata := action.recipient.1 ++ u64le action.value ++ action.rseed.1 ++ action.rcv.1 ++
    notePlaintextVersion.toList
  return [spend, derivation, output] ++ encCiphertext ++ outCiphertext ++ [metadata]

def serializeShieldedBundle (actions : List ShieldedAction) (flags : UInt8) (valueBalance : ℤ)
    (anchor : Fixed 32) (noteVersion : ℕ → Option UInt8) : Except String (List Bytes) := do
  ensureCount "shielded actions" actions.length MAX_SHIELDED_ACTIONS
  let count ← compactSize actions.length
  if actions.isEmpty then
    return [count]
  let packets ← actions.zipIdx.mapM fun item =>
    serializeShieldedAction item.1 (noteVersion item.2)
  ensure (valueBalance.natAbs < 2 ^ 64) "Shielded value balance exceeds Ledger's u64 range"
  let trailer := flags :: (leBytes 8 valueBalance.natAbs ++
    [if valueBalance < 0 then 1 else 0] ++ anchor.1)
  return count :: (packets.flatten ++ [trailer])

def serializeOrchardBundle : Option ShieldedBundle → Except String (List Bytes)
  | none => .ok [[0]]
  | some bundle => serializeShieldedBundle bundle.actions bundle.flags bundle.valueBalance
      bundle.anchor fun _ => none

def serializeIronwoodBundle : Option IronwoodBundle → Except String (List Bytes)
  | none => .ok [[0]]
  | some bundle => serializeShieldedBundle (bundle.actions.map (·.action)) bundle.flags
      bundle.valueBalance bundle.anchor fun index =>
        (bundle.actions[index]?).map (·.notePlaintextVersion)

def serializePczt (pczt : ParsedPczt) (memoHashSupported : Bool) :
    Except String (List CommandPackets) := do
  ensure (memoHashSupported ∨ ¬ pczt.memoReachesHashPath) LEDGER_MEMO_HASH_UNSUPPORTED
  let isV6 : Bool := 6 ≤ pczt.global.txVersion
  let inputs ← serializeTransparentInputs pczt.transparentInputs
  let outputs ← serializeTransparentOutputs pczt.transparentOutputs
  let orchard ← serializeOrchardBundle pczt.orchardBundle
  let commands : List CommandPackets := [⟨0x52, [serializeHeader pczt.global], false⟩,
    ⟨0x53, inputs, false⟩, ⟨0x54, outputs, false⟩, ⟨0x56, orchard, !isV6⟩]
  if isV6 then
    let ironwood ← serializeIronwoodBundle pczt.ironwoodBundle
    return commands ++ [⟨0x58, ironwood, true⟩]
  return commands

/-! ## Transfer -/

def packetP1 (index total : ℕ) : UInt8 :=
  if index = 0 then 0x00 else if index = total - 1 then 0x01 else 0x80

def packetP2 (index total : ℕ) (finishesPczt : Bool) : UInt8 :=
  if finishesPczt && index = total - 1 then 0x01 else 0x00

structure ApduCommand where
  cla : UInt8
  ins : UInt8
  p1 : UInt8
  p2 : UInt8
  data : Bytes
  deriving DecidableEq

def buildCommand (cla ins p1 p2 : UInt8) (data : Bytes) : Except String ApduCommand := do
  ensure (data.length ≤ 255) s!"Ledger APDU payload exceeds 255 bytes: {data.length}"
  return ⟨cla, ins, p1, p2, data⟩

/-- `exchange`; the device answers each command with a payload or a failure. -/
def exchange (device : ApduCommand → Except String Bytes) (ins p1 p2 : UInt8) (data : Bytes) :
    Except String Bytes := do
  let command ← buildCommand ZCASH_CLA ins p1 p2 data
  device command

/-- `send_pczt_with_progress`, without its progress reports. -/
def sendPczt (device : ApduCommand → Except String Bytes) (commands : List CommandPackets) :
    Except String Unit :=
  commands.forM fun command => do
    let total := command.packets.length
    ensure (total ≠ 0) "Ledger PCZT command has no packets"
    command.packets.zipIdx.forM fun item => do
      let _ ← (exchange device command.instruction (packetP1 item.2 total)
        (packetP2 item.2 total command.finishesPczt) item.1).mapError fun error =>
          s!"Ledger PCZT APDU 0x{String.ofList (Nat.toDigits 16 command.instruction.toNat)} " ++
            s!"packet {item.2 + 1}/{total} failed: {error}"

end VizorWallet.Ledger
