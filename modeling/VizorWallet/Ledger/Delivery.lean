import VizorWallet.Ledger.Unambiguous
import VizorWallet.Library.Pointwise

/-!
# Delivery of PCZT commands

Which serialized commands the transport carries to the device without refusing a packet.

## Main definitions

* `Deliverable` — every packet is accepted and a transfer runs to its end.

## Main results

* `deliverable_iff` — commands are deliverable when the shielded derivation paths are short enough.
* `serializePczt_deliverable_iff` — the commands of a PCZT also determine its fields.
-/

namespace VizorWallet.Ledger

/-- A packet that the transport accepts. -/
def Fits (packet : Bytes) : Prop := packet ≠ [] ∧ packet.length ≤ MAX_PACKET_SIZE

/-! ## The packets of each serializer -/

theorem fits_compactSize {n : ℕ} {s : Bytes} (h : compactSize n = .ok s) : Fits s :=
  ⟨compactSize_ne_nil h, (length_compactSize_le h).trans (by decide)⟩

theorem fits_fieldPackets {field : Bytes} {packets : List Bytes}
    (h : fieldPackets field = .ok packets) : ∀ packet ∈ packets, Fits packet := by
  obtain ⟨size, -, rfl⟩ := fieldPackets_eq_ok.1 h
  exact fun _ hpacket => chunk_nonempty hpacket

theorem fits_serializeBip32Derivation {derivation : Option Bip32Derivation} {s : Bytes}
    (h : serializeBip32Derivation derivation = .ok s) : Fits s := by
  cases derivation with
  | none =>
    cases h
    exact ⟨List.cons_ne_nil _ _, by decide⟩
  | some derivation =>
    simp only [serializeBip32Derivation, ensurePacketSize, bind_eq_ok, pure_eq_ok,
      ensure_eq_ok] at h
    obtain ⟨path, -, _, hsize, rfl⟩ := h
    exact ⟨List.cons_ne_nil _ _, hsize⟩

theorem length_flagged_le (n : Option UInt32) : (flagged u32le n).length ≤ 5 := by
  cases n <;> simp [flagged]

theorem fits_serializeTransparentInput {input : TransparentInput} {packets : List Bytes}
    (h : serializeTransparentInput input = .ok packets) : ∀ packet ∈ packets, Fits packet := by
  simp only [serializeTransparentInput, ensurePacketSize, bind_eq_ok, pure_eq_ok,
    ensure_eq_ok] at h
  obtain ⟨script, hscript, derivation, -, _, hsize, rfl⟩ := h
  intro packet hpacket
  obtain rfl | hpacket := List.mem_cons.1 hpacket
  · have hflag := length_flagged_le input.sequence
    refine ⟨List.ne_nil_of_length_pos ?_, ?_⟩ <;>
      simp only [List.length_append, length_fixed, length_u32le, length_u64le,
        MAX_PACKET_SIZE] <;> omega
  obtain hpacket | hpacket := List.mem_append.1 hpacket
  · exact fits_fieldPackets hscript packet hpacket
  · obtain rfl := List.mem_singleton.1 hpacket
    exact ⟨List.cons_ne_nil _ _, hsize⟩

theorem fits_serializeTransparentOutput {output : TransparentOutput} {packets : List Bytes}
    (h : serializeTransparentOutput output = .ok packets) : ∀ packet ∈ packets, Fits packet := by
  simp only [serializeTransparentOutput, bind_eq_ok, pure_eq_ok] at h
  obtain ⟨script, hscript, derivation, hderivation, rfl⟩ := h
  intro packet hpacket
  obtain rfl | hpacket := List.mem_cons.1 hpacket
  · exact ⟨List.ne_nil_of_length_pos (by simp), by simp [MAX_PACKET_SIZE]⟩
  obtain hpacket | hpacket := List.mem_append.1 hpacket
  · exact fits_fieldPackets hscript packet hpacket
  · obtain rfl := List.mem_singleton.1 hpacket
    exact fits_serializeBip32Derivation hderivation

/-- Packets after a count. -/
theorem fits_counted {α : Type} {f : α → Except String (List Bytes)} {l : List α} {count : Bytes}
    {parts : List (List Bytes)} (hcount : compactSize l.length = .ok count)
    (hparts : l.mapM f = .ok parts)
    (hf : ∀ a packets, f a = .ok packets → ∀ packet ∈ packets, Fits packet) :
    ∀ packet ∈ count :: parts.flatten, Fits packet := by
  intro packet hpacket
  obtain rfl | hpacket := List.mem_cons.1 hpacket
  · exact fits_compactSize hcount
  · obtain ⟨packets, hpackets, hpacket⟩ := List.mem_flatten.1 hpacket
    obtain ⟨a, -, ha⟩ := exists_mem_left (mapM_eq_ok.1 hparts) hpackets
    exact hf a packets ha packet hpacket

theorem fits_serializeTransparentInputs {inputs : List TransparentInput} {packets : List Bytes}
    (h : serializeTransparentInputs inputs = .ok packets) : ∀ packet ∈ packets, Fits packet := by
  simp only [serializeTransparentInputs, bind_eq_ok, pure_eq_ok] at h
  obtain ⟨_, -, count, hcount, parts, hparts, rfl⟩ := h
  exact fits_counted hcount hparts fun _ _ => fits_serializeTransparentInput

theorem fits_serializeTransparentOutputs {outputs : List TransparentOutput}
    {packets : List Bytes} (h : serializeTransparentOutputs outputs = .ok packets) :
    ∀ packet ∈ packets, Fits packet := by
  simp only [serializeTransparentOutputs, bind_eq_ok, pure_eq_ok] at h
  obtain ⟨_, -, count, hcount, parts, hparts, rfl⟩ := h
  exact fits_counted hcount hparts fun _ _ => fits_serializeTransparentOutput

theorem fits_serializeHeader (g : Global) : Fits (serializeHeader g) := by
  have hflag := length_flagged_le g.fallbackLockTime
  have htag : (ascii "PCZT").length = 4 := rfl
  refine ⟨List.ne_nil_of_length_pos ?_, ?_⟩ <;>
    simp only [serializeHeader, List.length_append, htag, length_u32le, List.length_singleton,
      MAX_PACKET_SIZE] <;> omega

/-! ## Shielded actions -/

/-- The longest derivation path that fits beside a seed fingerprint. -/
def MAX_SHIELDED_PATH : ℕ := 55

theorem fits_serializeShieldedAction {action : ShieldedAction} {version : Option UInt8}
    {packets : List Bytes} (h : serializeShieldedAction action version = .ok packets) :
    (∀ packet ∈ packets, Fits packet) ↔ action.signingPath.length ≤ MAX_SHIELDED_PATH := by
  simp only [serializeShieldedAction, bind_eq_ok, pure_eq_ok] at h
  obtain ⟨path, hpath, enc, henc, out, hout, rfl⟩ := h
  have hlength := length_packDerivationPath hpath
  have hderivation : Fits (action.seedFingerprint.1 ++ path) ↔
      action.signingPath.length ≤ MAX_SHIELDED_PATH := by
    rw [Fits, List.length_append, length_fixed, hlength, MAX_PACKET_SIZE,
      MAX_SHIELDED_PATH]
    constructor
    · rintro ⟨-, hsize⟩
      omega
    · intro hsize
      refine ⟨List.ne_nil_of_length_pos ?_, by omega⟩
      rw [List.length_append, hlength]
      omega
  have hfixed {packet : Bytes} (hpos : 0 < packet.length) (hle : packet.length ≤ 255) :
      Fits packet := ⟨List.ne_nil_of_length_pos hpos, hle⟩
  have hversion : version.toList.length ≤ 1 := by cases version <;> simp
  rw [← hderivation]
  constructor
  · intro hall
    exact hall _ (by simp)
  · intro hfits packet hpacket
    simp only [List.mem_append, List.mem_cons, List.not_mem_nil, or_false] at hpacket
    obtain ((((rfl | rfl | rfl) | hpacket) | hpacket) | rfl) := hpacket
    · apply hfixed <;> simp only [List.length_append, length_fixed, length_u64le] <;> omega
    · exact hfits
    · apply hfixed <;> simp only [List.length_append, length_fixed] <;> omega
    · exact fits_fieldPackets henc packet hpacket
    · exact fits_fieldPackets hout packet hpacket
    · apply hfixed <;> simp only [List.length_append, length_fixed, length_u64le] <;> omega

theorem fits_serializeShieldedBundle {actions : List ShieldedAction} {flags : UInt8} {balance : ℤ}
    {anchor : Fixed 32} {noteVersion : ℕ → Option UInt8} {packets : List Bytes}
    (h : serializeShieldedBundle actions flags balance anchor noteVersion = .ok packets) :
    (∀ packet ∈ packets, Fits packet) ↔
      ∀ action ∈ actions, action.signingPath.length ≤ MAX_SHIELDED_PATH := by
  obtain ⟨-, count, hcount, h⟩ := serializeShieldedBundle_eq_ok.1 h
  obtain ⟨rfl, rfl⟩ | ⟨-, parts, hparts, -, rfl⟩ := h
  · simpa using fits_compactSize hcount
  have htrailer : Fits (flags :: (leBytes 8 balance.natAbs ++ [if balance < 0 then 1 else 0] ++
      anchor.1)) := by
    refine ⟨List.cons_ne_nil _ _, ?_⟩
    simp only [List.length_cons, List.length_append, length_leBytes, length_fixed, List.length_nil]
    decide
  have hall := mapM_eq_ok.1 hparts
  have hpackets : (∀ packet ∈ parts.flatten, Fits packet) ↔
      ∀ item ∈ versioned actions noteVersion, item.1.signingPath.length ≤ MAX_SHIELDED_PATH := by
    constructor
    · intro hfits item hitem
      obtain ⟨part, hpart, hserialize⟩ := exists_mem_right hall hitem
      exact (fits_serializeShieldedAction hserialize).1 fun packet hpacket =>
        hfits packet (List.mem_flatten_of_mem hpart hpacket)
    · intro hpaths packet hpacket
      obtain ⟨part, hpart, hpacket⟩ := List.mem_flatten.1 hpacket
      obtain ⟨item, hitem, hserialize⟩ := exists_mem_left hall hpart
      exact (fits_serializeShieldedAction hserialize).2 (hpaths item hitem) packet hpacket
  have hactions : (∀ item ∈ versioned actions noteVersion,
      item.1.signingPath.length ≤ MAX_SHIELDED_PATH) ↔
      ∀ action ∈ actions, action.signingPath.length ≤ MAX_SHIELDED_PATH := by
    conv_rhs => rw [← map_fst_versioned actions noteVersion]
    simp only [List.forall_mem_map]
  rw [← hactions, ← hpackets]
  constructor
  · intro hall packet hpacket
    exact hall packet (by simp [hpacket])
  · intro hall packet hpacket
    simp only [List.mem_cons, List.mem_append, List.not_mem_nil, or_false] at hpacket
    obtain rfl | hpacket | rfl := hpacket
    · exact fits_compactSize hcount
    · exact hall packet hpacket
    · exact htrailer

/-! ## Commands -/

/-- The shielded actions that are sent. -/
def ParsedPczt.shieldedActions (p : ParsedPczt) : List ShieldedAction :=
  p.orchardBundle.elim [] (·.actions) ++ p.ironwoodBundle.elim [] (·.actions.map (·.action))

theorem fits_serializeOrchardBundle {bundle : Option ShieldedBundle} {packets : List Bytes}
    (h : serializeOrchardBundle bundle = .ok packets) : (∀ packet ∈ packets, Fits packet) ↔
      ∀ action ∈ bundle.elim [] (·.actions), action.signingPath.length ≤ MAX_SHIELDED_PATH := by
  cases bundle with
  | none =>
    cases h
    simp [Fits, MAX_PACKET_SIZE]
  | some bundle =>
    rw [serializeOrchardBundle] at h
    exact fits_serializeShieldedBundle h

theorem fits_serializeIronwoodBundle {bundle : Option IronwoodBundle} {packets : List Bytes}
    (h : serializeIronwoodBundle bundle = .ok packets) : (∀ packet ∈ packets, Fits packet) ↔
      ∀ action ∈ bundle.elim [] (·.actions.map (·.action)),
        action.signingPath.length ≤ MAX_SHIELDED_PATH := by
  cases bundle with
  | none =>
    cases h
    simp [Fits, MAX_PACKET_SIZE]
  | some bundle =>
    rw [serializeIronwoodBundle] at h
    exact fits_serializeShieldedBundle h

/-- The commands of a PCZT: those of every transaction, and the Ironwood one from version 6 on. -/
theorem serializePczt_eq_ok {p : ParsedPczt} {memo : Bool} {commands : List CommandPackets} :
    serializePczt p memo = .ok commands ↔
      (memo ∨ ¬ p.memoReachesHashPath) ∧ ∃ inputs outputs orchard,
        serializeTransparentInputs p.transparentInputs = .ok inputs ∧
        serializeTransparentOutputs p.transparentOutputs = .ok outputs ∧
        serializeOrchardBundle p.orchardBundle = .ok orchard ∧
        (6 ≤ p.global.txVersion ∧ (∃ ironwood,
          serializeIronwoodBundle p.ironwoodBundle = .ok ironwood ∧
          commands = [⟨0x52, [serializeHeader p.global], false⟩, ⟨0x53, inputs, false⟩,
            ⟨0x54, outputs, false⟩, ⟨0x56, orchard, false⟩, ⟨0x58, ironwood, true⟩]) ∨
        ¬ 6 ≤ p.global.txVersion ∧ commands = [⟨0x52, [serializeHeader p.global], false⟩,
          ⟨0x53, inputs, false⟩, ⟨0x54, outputs, false⟩, ⟨0x56, orchard, true⟩]) := by
  by_cases hversion : 6 ≤ p.global.txVersion
  · simp only [serializePczt, bind_eq_ok, ensure_eq_ok, hversion, decide_true, if_true,
      pure_eq_ok, exists_and_left, exists_const, true_and, not_true_eq_false, false_and, or_false,
      List.cons_append, List.nil_append, Bool.not_true]
    simp only [eq_comm]
  · simp only [serializePczt, bind_eq_ok, ensure_eq_ok, hversion, decide_false,
      Bool.false_eq_true, if_false, pure_eq_ok, exists_and_left, exists_const, not_false_eq_true,
      true_and, false_and, false_or, Bool.not_false]
    simp only [eq_comm]

/-- The PCZTs have the same fields; a missing bundle counts as one without actions. -/
structure SameFields (p q : ParsedPczt) : Prop where
  global : p.global = q.global
  transparentInputs : p.transparentInputs = q.transparentInputs
  transparentOutputs : p.transparentOutputs = q.transparentOutputs
  orchard : ShieldedBundle.sent p.orchardBundle = ShieldedBundle.sent q.orchardBundle
  ironwood : IronwoodBundle.sent p.ironwoodBundle = IronwoodBundle.sent q.ironwoodBundle

/-- The bytes of each command, after its instruction. -/
def transcript (commands : List CommandPackets) : List (UInt8 × Bytes) :=
  commands.map fun command => (command.instruction, command.packets.flatten)

/-- Only a PCZT with the same fields has commands with the same bytes. -/
def Recoverable (p : ParsedPczt) (commands : List CommandPackets) : Prop :=
  ∀ q memo commands', serializePczt q memo = .ok commands' →
    transcript commands' = transcript commands → SameFields p q

theorem recoverable {p : ParsedPczt} {memo : Bool} {commands : List CommandPackets}
    (h : serializePczt p memo = .ok commands) : Recoverable p commands := by
  intro q memo' commands' h' hbytes
  obtain ⟨-, inputs, outputs, orchard, hin, hout, horchard, h⟩ := serializePczt_eq_ok.1 h
  obtain ⟨-, inputs', outputs', orchard', hin', hout', horchard', h'⟩ := serializePczt_eq_ok.1 h'
  obtain ⟨hversion, ironwood, hironwood, rfl⟩ | ⟨hversion, rfl⟩ := h <;>
  obtain ⟨hversion', ironwood', hironwood', rfl⟩ | ⟨hversion', rfl⟩ := h' <;>
  simp only [transcript, List.map_cons, List.map_nil, List.cons.injEq, Prod.mk.injEq, true_and,
    List.flatten_cons, List.flatten_nil, List.append_nil, reduceCtorEq, and_false,
    and_true] at hbytes
  case inl.inl =>
    obtain ⟨hheader, hinputs, houtputs, hactions, hironwoods⟩ := hbytes
    exact ⟨(serializeHeader_inj hheader).symm,
      serializeTransparentInputs_inj ⟨_, hin, rfl⟩ ⟨_, hin', hinputs⟩,
      serializeTransparentOutputs_inj ⟨_, hout, rfl⟩ ⟨_, hout', houtputs⟩,
      serializeOrchardBundle_inj ⟨_, horchard, rfl⟩ ⟨_, horchard', hactions⟩,
      serializeIronwoodBundle_inj ⟨_, hironwood, rfl⟩ ⟨_, hironwood', hironwoods⟩⟩
  case inr.inr =>
    obtain ⟨hheader, hinputs, houtputs, hactions⟩ := hbytes
    have hmissing {r : ParsedPczt} (hr : ¬ 6 ≤ r.global.txVersion) : r.ironwoodBundle = none :=
      Option.not_isSome_iff_eq_none.1 fun hsome => hr (r.ironwood_version hsome)
    exact ⟨(serializeHeader_inj hheader).symm,
      serializeTransparentInputs_inj ⟨_, hin, rfl⟩ ⟨_, hin', hinputs⟩,
      serializeTransparentOutputs_inj ⟨_, hout, rfl⟩ ⟨_, hout', houtputs⟩,
      serializeOrchardBundle_inj ⟨_, horchard, rfl⟩ ⟨_, horchard', hactions⟩,
      by rw [hmissing hversion, hmissing hversion']⟩

/-! ## Delivery -/

/-- The transport accepts every packet, and a transfer ends well on a device that answers. -/
structure Deliverable (commands : List CommandPackets) : Prop where
  fits : ∀ command ∈ commands, ∀ packet ∈ command.packets, packet ≠ [] ∧ packet.length ≤ 255
  accepted : ∀ command ∈ commands, ∀ packet ∈ command.packets, ∀ cla ins p1 p2,
    ∃ apdu, buildCommand cla ins p1 p2 packet = .ok apdu
  transferred : ∀ device, (∀ apdu, ∃ response, device apdu = .ok response) →
    sendPczt device commands = .ok ()

theorem deliverable_of_fits {commands : List CommandPackets}
    (hne : ∀ command ∈ commands, command.packets ≠ [])
    (hfits : ∀ command ∈ commands, ∀ packet ∈ command.packets, Fits packet) :
    Deliverable commands := by
  have haccepted : ∀ command ∈ commands, ∀ packet ∈ command.packets, ∀ cla ins p1 p2,
      buildCommand cla ins p1 p2 packet = .ok ⟨cla, ins, p1, p2, packet⟩ := by
    intro command hcommand packet hpacket cla ins p1 p2
    have hsize : packet.length ≤ 255 := (hfits command hcommand packet hpacket).2
    simp [buildCommand, ensure_of, hsize]
  refine ⟨hfits, fun command hcommand packet hpacket cla ins p1 p2 =>
    ⟨_, haccepted command hcommand packet hpacket cla ins p1 p2⟩, fun device hdevice => ?_⟩
  rw [sendPczt, forM_eq_ok]
  intro command hcommand
  have htotal : command.packets.length ≠ 0 := by
    simpa using hne command hcommand
  simp only [bind_eq_ok, ensure_eq_ok, htotal, ne_eq, not_false_eq_true, exists_const, true_and,
    forM_eq_ok]
  rintro ⟨packet, index⟩ hitem
  have hpacket : packet ∈ command.packets := List.fst_mem_of_mem_zipIdx hitem
  obtain ⟨response, hresponse⟩ := hdevice ⟨ZCASH_CLA, command.instruction,
    packetP1 index command.packets.length,
    packetP2 index command.packets.length command.finishesPczt, packet⟩
  simp [exchange, haccepted command hcommand packet hpacket, hresponse, Except.mapError]

theorem packets_ne_nil {p : ParsedPczt} {memo : Bool} {commands : List CommandPackets}
    (h : serializePczt p memo = .ok commands) :
    ∀ command ∈ commands, command.packets ≠ [] := by
  have hbundle {bundle : Option ShieldedBundle} {packets : List Bytes}
      (hbundle : serializeOrchardBundle bundle = .ok packets) : packets ≠ [] := by
    rintro rfl
    cases bundle with
    | none => cases hbundle
    | some bundle =>
      rw [serializeOrchardBundle] at hbundle
      obtain ⟨-, _, -, ⟨-, h⟩ | ⟨-, _, -, -, h⟩⟩ := serializeShieldedBundle_eq_ok.1 hbundle <;>
        cases h
  have hironwood {bundle : Option IronwoodBundle} {packets : List Bytes}
      (hbundle : serializeIronwoodBundle bundle = .ok packets) : packets ≠ [] := by
    rintro rfl
    cases bundle with
    | none => cases hbundle
    | some bundle =>
      rw [serializeIronwoodBundle] at hbundle
      obtain ⟨-, _, -, ⟨-, h⟩ | ⟨-, _, -, -, h⟩⟩ := serializeShieldedBundle_eq_ok.1 hbundle <;>
        cases h
  obtain ⟨-, inputs, outputs, orchard, hin, hout, horchard, h⟩ := serializePczt_eq_ok.1 h
  simp only [serializeTransparentInputs, bind_eq_ok, pure_eq_ok] at hin
  simp only [serializeTransparentOutputs, bind_eq_ok, pure_eq_ok] at hout
  obtain ⟨_, -, _, -, _, -, rfl⟩ := hin
  obtain ⟨_, -, _, -, _, -, rfl⟩ := hout
  obtain ⟨-, ironwood, hiron, rfl⟩ | ⟨-, rfl⟩ := h
  · simp [hbundle horchard, hironwood hiron]
  · simp [hbundle horchard]

/-- The commands of a PCZT can be delivered when no shielded path is too long. -/
theorem deliverable_iff {p : ParsedPczt} {memo : Bool} {commands : List CommandPackets}
    (h : serializePczt p memo = .ok commands) : Deliverable commands ↔
      ∀ action ∈ p.shieldedActions, action.signingPath.length ≤ MAX_SHIELDED_PATH := by
  have hne := packets_ne_nil h
  obtain ⟨-, inputs, outputs, orchard, hin, hout, horchard, h⟩ := serializePczt_eq_ok.1 h
  have hfits : Deliverable commands ↔
      ∀ command ∈ commands, ∀ packet ∈ command.packets, Fits packet :=
    ⟨Deliverable.fits, deliverable_of_fits hne⟩
  have hheader := fits_serializeHeader p.global
  rw [hfits, ParsedPczt.shieldedActions, List.forall_mem_append,
    ← fits_serializeOrchardBundle horchard]
  obtain ⟨-, ironwood, hironwood, rfl⟩ | ⟨hversion, rfl⟩ := h
  · rw [← fits_serializeIronwoodBundle hironwood]
    simp only [List.forall_mem_cons, List.not_mem_nil, false_implies, implies_true, and_true]
    exact ⟨fun ⟨_, _, _, ho, hi⟩ => ⟨ho, hi⟩, fun ⟨ho, hi⟩ => ⟨hheader,
      fits_serializeTransparentInputs hin, fits_serializeTransparentOutputs hout, ho, hi⟩⟩
  · have hmissing : p.ironwoodBundle = none :=
      Option.not_isSome_iff_eq_none.1 fun hsome => hversion (p.ironwood_version hsome)
    simp only [hmissing, Option.elim_none, List.forall_mem_cons, List.not_mem_nil, false_implies,
      implies_true, and_true]
    exact ⟨fun ⟨_, _, _, ho⟩ => ho, fun ho => ⟨hheader,
      fits_serializeTransparentInputs hin, fits_serializeTransparentOutputs hout, ho⟩⟩

/-- Commands are delivered, and tell which PCZT they are of, when no shielded derivation path has
more than 55 components. -/
theorem serializePczt_delivers {p : ParsedPczt} {memo : Bool} {commands : List CommandPackets}
    (h : serializePczt p memo = .ok commands) : Deliverable commands ∧ Recoverable p commands ↔
      ∀ action ∈ p.shieldedActions, action.signingPath.length ≤ MAX_SHIELDED_PATH := by
  rw [← deliverable_iff h]
  exact and_iff_left (recoverable h)

/-- A version 5 transaction with one shielded action, whose path has the given length. -/
def shieldedPczt (length : ℕ) : ParsedPczt where
  global := ⟨5, 0x26a7270a, 0xc2d6d0b4, none, 0, 133, 0⟩
  transparentInputs := []
  transparentOutputs := []
  orchardBundle := some {
    actions := [{
      cvNet := zeroAnchor
      nullifier := zeroAnchor
      rk := zeroAnchor
      spendRecipient := ⟨List.replicate 43 0, rfl⟩
      spendValue := 100000
      spendRho := zeroAnchor
      spendRseed := zeroAnchor
      alpha := zeroAnchor
      signingPath := List.replicate length 0x80000020
      seedFingerprint := zeroAnchor
      cmx := zeroAnchor
      ephemeralKey := zeroAnchor
      encCiphertext := List.replicate 580 7
      outCiphertext := List.replicate 80 7
      recipient := ⟨List.replicate 43 0, rfl⟩
      value := 90000
      rseed := zeroAnchor
      rcv := zeroAnchor }]
    flags := 3
    valueBalance := 10000
    anchor := zeroAnchor }
  ironwoodBundle := none
  memoReachesHashPath := false
  ironwood_version := by simp

/-- The commands of the sample transaction. -/
def shieldedCommands (length : ℕ) : List CommandPackets :=
  match serializePczt (shieldedPczt length) true with
  | .ok commands => commands
  | .error _ => []

theorem serializePczt_delivers_three :
    Deliverable (shieldedCommands 3) ∧ Recoverable (shieldedPczt 3) (shieldedCommands 3) := by
  have h : serializePczt (shieldedPczt 3) true = .ok (shieldedCommands 3) := by decide +kernel
  exact (serializePczt_delivers h).2 (by decide)

theorem long_shielded_path_refused :
    serializePczt (shieldedPczt 56) true = .ok (shieldedCommands 56) ∧
      ¬ Deliverable (shieldedCommands 56) := by
  refine ⟨by decide +kernel, fun h => ?_⟩
  have hfits : ∀ command ∈ shieldedCommands 56, ∀ packet ∈ command.packets,
      packet.length ≤ 255 := fun command hcommand packet hpacket =>
    (h.fits command hcommand packet hpacket).2
  revert hfits
  decide +kernel

end VizorWallet.Ledger
