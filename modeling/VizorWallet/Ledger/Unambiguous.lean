import VizorWallet.Ledger.Serializer

/-!
# The PCZT format of the Ledger app is unambiguous

The bytes of each command determine the fields that were serialized into them.

## Main results

* `unambiguous_serializeTransparentInput`, `unambiguous_serializeTransparentOutput`,
  `serializeShieldedAction_inj` — one input, output or action.
* `serializeOrchardBundle_inj`, `serializeIronwoodBundle_inj` — bundles.
-/

namespace VizorWallet.Ledger

/-- The bytes that a serializer sends for a value, its packets one after another. -/
def Sends {α : Type} (serialize : α → Except String (List Bytes)) (a : α) (s : Bytes) : Prop :=
  ∃ packets, serialize a = .ok packets ∧ packets.flatten = s

/-! ## Fields -/

theorem compactSize_cases {n : ℕ} {s : Bytes} (h : compactSize n = .ok s) :
    (n < 253 ∧ s = [UInt8.ofNat n]) ∨ (253 ≤ n ∧ n < 256 ^ 2 ∧ s = 253 :: leBytes 2 n) ∨
      (256 ^ 2 ≤ n ∧ n < 256 ^ 4 ∧ s = 254 :: leBytes 4 n) ∨
      (256 ^ 4 ≤ n ∧ n < 256 ^ 8 ∧ s = 255 :: leBytes 8 n) := by
  unfold compactSize at h
  split_ifs at h with h1 h2 h3
  · cases h
    exact .inl ⟨h1, rfl⟩
  · cases h
    exact .inr (.inl ⟨by omega, by omega, rfl⟩)
  · cases h
    exact .inr (.inr (.inl ⟨by omega, by omega, rfl⟩))
  · simp only [bind_eq_ok, ensure_eq_ok, pure_eq_ok] at h
    obtain ⟨-, h4, rfl⟩ := h
    exact .inr (.inr (.inr ⟨by omega, by omega, rfl⟩))

theorem compactSize_ne_nil {n : ℕ} {s : Bytes} (h : compactSize n = .ok s) : s ≠ [] := by
  obtain ⟨-, rfl⟩ | ⟨-, -, rfl⟩ | ⟨-, -, rfl⟩ | ⟨-, -, rfl⟩ := compactSize_cases h <;> simp

theorem length_compactSize_le {n : ℕ} {s : Bytes} (h : compactSize n = .ok s) : s.length ≤ 9 := by
  obtain ⟨-, rfl⟩ | ⟨-, -, rfl⟩ | ⟨-, -, rfl⟩ | ⟨-, -, rfl⟩ := compactSize_cases h <;> simp

theorem toNat_ofNat_of_lt {n : ℕ} (h : n < 253) : (UInt8.ofNat n).toNat = n := by
  simp
  omega

theorem unambiguous_compactSize : Unambiguous fun n s => compactSize n = .ok s := by
  intro m n s t x y hs ht h
  -- The first byte tells the widths apart.
  obtain ⟨hm, rfl⟩ | ⟨-, hm, rfl⟩ | ⟨-, hm, rfl⟩ | ⟨-, hm, rfl⟩ := compactSize_cases hs <;>
  obtain ⟨hn, rfl⟩ | ⟨-, hn, rfl⟩ | ⟨-, hn, rfl⟩ | ⟨-, hn, rfl⟩ := compactSize_cases ht <;>
  rw [List.cons_append, List.cons_append, List.cons.injEq] at h <;>
  obtain ⟨htag, hrest⟩ := h
  case inl.inl =>
    refine ⟨?_, hrest⟩
    rw [← toNat_ofNat_of_lt hm, ← toNat_ofNat_of_lt hn, htag]
  case inr.inl.inr.inl => exact (leBytes_append_inj hm hn).1 hrest
  case inr.inr.inl.inr.inr.inl => exact (leBytes_append_inj hm hn).1 hrest
  case inr.inr.inr.inr.inr.inr => exact (leBytes_append_inj hm hn).1 hrest
  all_goals
    have hvalue := congrArg UInt8.toNat htag
    simp at hvalue <;> omega

theorem packDerivationPath_eq_ok {path : List UInt32} {s : Bytes} :
    packDerivationPath path = .ok s ↔ path.length < 256 ∧
      s = UInt8.ofNat path.length :: (path.map u32be).flatten ∧ s.length ≤ MAX_PACKET_SIZE := by
  simp only [packDerivationPath, ensurePacketSize, bind_eq_ok, ensure_eq_ok, pure_eq_ok]
  grind

theorem length_flatten_map_u32be (path : List UInt32) :
    (path.map u32be).flatten.length = 4 * path.length := by
  induction path with
  | nil => rfl
  | cons n rest ih =>
    simp only [List.map_cons, List.flatten_cons, List.length_append, ih, length_u32be,
      List.length_cons]
    omega

theorem length_packDerivationPath {path : List UInt32} {s : Bytes}
    (h : packDerivationPath path = .ok s) : s.length = 4 * path.length + 1 := by
  obtain ⟨-, rfl, -⟩ := packDerivationPath_eq_ok.1 h
  rw [List.length_cons, length_flatten_map_u32be]

theorem unambiguous_packDerivationPath :
    Unambiguous fun path s => packDerivationPath path = .ok s := by
  intro p q s t x y hs ht h
  obtain ⟨hp, rfl, -⟩ := packDerivationPath_eq_ok.1 hs
  obtain ⟨hq, rfl, -⟩ := packDerivationPath_eq_ok.1 ht
  rw [List.cons_append, List.cons_append, List.cons.injEq] at h
  have hlength : p.length = q.length := by
    have hvalue := congrArg UInt8.toNat h.1
    simp only [UInt8.toNat_ofNat', Nat.reducePow, Nat.mod_eq_of_lt hp, Nat.mod_eq_of_lt hq]
      at hvalue
    exact hvalue
  have hwords (path : List UInt32) :
      List.Forall₂ (fun n s => u32be n = s) path (path.map u32be) := by
    simp [List.forall₂_map_right_iff, List.forall₂_same]
  exact unambiguous_u32be.list (hwords p) (hwords q) hlength h.2

theorem unambiguous_serializeBip32Derivation :
    Unambiguous fun derivation s => serializeBip32Derivation derivation = .ok s := by
  intro a b s t x y ha hb h
  cases a with
  | none =>
    cases ha
    cases b with
    | none =>
      cases hb
      exact ⟨rfl, by simpa using h⟩
    | some b =>
      simp only [serializeBip32Derivation, bind_eq_ok, pure_eq_ok] at hb
      obtain ⟨_, -, _, -, rfl⟩ := hb
      simp at h
  | some a =>
    simp only [serializeBip32Derivation, bind_eq_ok, pure_eq_ok] at ha
    obtain ⟨p, hp, _, -, rfl⟩ := ha
    cases b with
    | none =>
      cases hb
      simp at h
    | some b =>
      simp only [serializeBip32Derivation, bind_eq_ok, pure_eq_ok] at hb
      obtain ⟨q, hq, _, -, rfl⟩ := hb
      simp only [List.cons_append, List.append_assoc, List.cons.injEq, fixed_append_inj,
        true_and] at h
      obtain ⟨hpubkey, hfingerprint, hpath⟩ := h
      obtain ⟨hpath, hrest⟩ := unambiguous_packDerivationPath hp hq hpath
      cases a
      cases b
      subst hpubkey hfingerprint hpath hrest
      exact ⟨rfl, rfl⟩

theorem fieldPackets_eq_ok {field : Bytes} {packets : List Bytes} :
    fieldPackets field = .ok packets ↔ ∃ size, compactSize field.length = .ok size ∧
      chunks MAX_PACKET_SIZE (size ++ field) = packets := by
  simp [fieldPackets]

theorem unambiguous_fieldPackets : Unambiguous (Sends fieldPackets) := by
  rintro a b _ _ x y ⟨ps, hps, rfl⟩ ⟨qs, hqs, rfl⟩ h
  obtain ⟨m, hm, rfl⟩ := fieldPackets_eq_ok.1 hps
  obtain ⟨n, hn, rfl⟩ := fieldPackets_eq_ok.1 hqs
  rw [flatten_chunks (by decide), flatten_chunks (by decide), List.append_assoc,
    List.append_assoc] at h
  obtain ⟨hlength, hfield⟩ := unambiguous_compactSize hm hn h
  exact List.append_inj hfield hlength

/-! ## Transparent inputs and outputs -/

theorem unambiguous_serializeTransparentInput :
    Unambiguous (Sends serializeTransparentInput) := by
  rintro a b _ _ x y ⟨_, ha, rfl⟩ ⟨_, hb, rfl⟩ h
  simp only [serializeTransparentInput, bind_eq_ok, pure_eq_ok] at ha hb
  obtain ⟨script, hscript, derivation, hderivation, -, -, rfl⟩ := ha
  obtain ⟨script', hscript', derivation', hderivation', -, -, rfl⟩ := hb
  simp only [List.flatten_cons, List.flatten_append, List.flatten_nil, List.append_nil,
    List.append_assoc, List.cons_append, fixed_append_inj, u32le_append_inj, u64le_append_inj,
    flagged_append_inj u32le_append_inj] at h
  obtain ⟨htxid, hindex, hsequence, hvalue, h⟩ := h
  obtain ⟨hscripts, h⟩ := unambiguous_fieldPackets ⟨_, hscript, rfl⟩ ⟨_, hscript', rfl⟩ h
  obtain ⟨hsighash, h⟩ := List.cons.inj h
  obtain ⟨hderivations, hrest⟩ := unambiguous_serializeBip32Derivation hderivation hderivation' h
  cases a
  cases b
  cases hderivations
  subst htxid hindex hsequence hvalue hscripts hsighash
  exact ⟨rfl, hrest⟩

theorem unambiguous_serializeTransparentOutput :
    Unambiguous (Sends serializeTransparentOutput) := by
  rintro a b _ _ x y ⟨_, ha, rfl⟩ ⟨_, hb, rfl⟩ h
  simp only [serializeTransparentOutput, bind_eq_ok, pure_eq_ok] at ha hb
  obtain ⟨script, hscript, derivation, hderivation, rfl⟩ := ha
  obtain ⟨script', hscript', derivation', hderivation', rfl⟩ := hb
  simp only [List.flatten_cons, List.flatten_append, List.flatten_nil, List.append_nil,
    List.append_assoc, u64le_append_inj] at h
  obtain ⟨hvalue, h⟩ := h
  obtain ⟨hscripts, h⟩ := unambiguous_fieldPackets ⟨_, hscript, rfl⟩ ⟨_, hscript', rfl⟩ h
  obtain ⟨hderivations, hrest⟩ := unambiguous_serializeBip32Derivation hderivation hderivation' h
  cases a
  cases b
  subst hvalue hscripts hderivations
  exact ⟨rfl, hrest⟩

/-- The words of a traversal that succeeded. -/
theorem sends_of_mapM {α : Type} {f : α → Except String (List Bytes)} {l : List α}
    {packets : List (List Bytes)} (h : l.mapM f = .ok packets) :
    List.Forall₂ (Sends f) l (packets.map List.flatten) := by
  rw [List.forall₂_map_right_iff]
  exact (mapM_eq_ok.1 h).imp fun _ _ ha => ⟨_, ha, rfl⟩

/-- A count, and that many words. -/
theorem counted_inj {α : Type} {f : α → Except String (List Bytes)} (hf : Unambiguous (Sends f))
    {l l' : List α} {m n : Bytes} {ps qs : List (List Bytes)} {x y : Bytes}
    (hm : compactSize l.length = .ok m) (hn : compactSize l'.length = .ok n)
    (hps : l.mapM f = .ok ps) (hqs : l'.mapM f = .ok qs)
    (h : m ++ (ps.flatten.flatten ++ x) = n ++ (qs.flatten.flatten ++ y)) : l = l' ∧ x = y := by
  obtain ⟨hlength, h⟩ := unambiguous_compactSize hm hn h
  rw [List.flatten_flatten, List.flatten_flatten] at h
  exact hf.list (sends_of_mapM hps) (sends_of_mapM hqs) hlength h

theorem serializeTransparentInputs_inj {l l' : List TransparentInput} {s : Bytes}
    (h : Sends serializeTransparentInputs l s) (h' : Sends serializeTransparentInputs l' s) :
    l = l' := by
  obtain ⟨_, h, rfl⟩ := h
  obtain ⟨_, h', hs⟩ := h'
  simp only [serializeTransparentInputs, bind_eq_ok, pure_eq_ok] at h h'
  obtain ⟨_, -, m, hm, ps, hps, rfl⟩ := h
  obtain ⟨_, -, n, hn, qs, hqs, rfl⟩ := h'
  refine (counted_inj unambiguous_serializeTransparentInput hm hn hps hqs (x := []) (y := []) ?_).1
  simpa using hs.symm

theorem serializeTransparentOutputs_inj {l l' : List TransparentOutput} {s : Bytes}
    (h : Sends serializeTransparentOutputs l s) (h' : Sends serializeTransparentOutputs l' s) :
    l = l' := by
  obtain ⟨_, h, rfl⟩ := h
  obtain ⟨_, h', hs⟩ := h'
  simp only [serializeTransparentOutputs, bind_eq_ok, pure_eq_ok] at h h'
  obtain ⟨_, -, m, hm, ps, hps, rfl⟩ := h
  obtain ⟨_, -, n, hn, qs, hqs, rfl⟩ := h'
  refine (counted_inj unambiguous_serializeTransparentOutput hm hn hps hqs (x := []) (y := [])
    ?_).1
  simpa using hs.symm

/-! ## Shielded bundles -/

/-- The version byte at the end has no flag: both actions carry one, or neither does. -/
theorem serializeShieldedAction_inj {a b : ShieldedAction} {v w : Option UInt8}
    {ps qs : List Bytes} {x y : Bytes} (hversion : v.isSome = w.isSome)
    (ha : serializeShieldedAction a v = .ok ps) (hb : serializeShieldedAction b w = .ok qs)
    (h : ps.flatten ++ x = qs.flatten ++ y) : a = b ∧ v = w ∧ x = y := by
  simp only [serializeShieldedAction, bind_eq_ok, pure_eq_ok] at ha hb
  obtain ⟨path, hpath, enc, henc, out, hout, rfl⟩ := ha
  obtain ⟨path', hpath', enc', henc', out', hout', rfl⟩ := hb
  simp only [List.flatten_cons, List.flatten_append, List.flatten_nil, List.append_nil,
    List.append_assoc, fixed_append_inj, u64le_append_inj] at h
  obtain ⟨hcv, hnullifier, hrk, hspendRecipient, hspendValue, hrho, hspendRseed, halpha,
    hfingerprint, h⟩ := h
  obtain ⟨hpaths, h⟩ := unambiguous_packDerivationPath hpath hpath' h
  simp only [fixed_append_inj] at h
  obtain ⟨hcmx, hkey, h⟩ := h
  obtain ⟨hencs, h⟩ := unambiguous_fieldPackets ⟨_, henc, rfl⟩ ⟨_, henc', rfl⟩ h
  obtain ⟨houts, h⟩ := unambiguous_fieldPackets ⟨_, hout, rfl⟩ ⟨_, hout', rfl⟩ h
  simp only [fixed_append_inj, u64le_append_inj] at h
  obtain ⟨hrecipient, hvalue, hrseed, hrcv, h⟩ := h
  have hversions : v = w ∧ x = y := by
    cases v <;> cases w <;> simp_all
  cases a
  cases b
  subst hcv hnullifier hrk hspendRecipient hspendValue hrho hspendRseed halpha hfingerprint
    hpaths hcmx hkey hencs houts hrecipient hvalue hrseed hrcv
  exact ⟨rfl, hversions⟩

/-- An action with its note version. -/
abbrev VersionedAction := ShieldedAction × Option UInt8

def serializeVersioned (item : VersionedAction) : Except String (List Bytes) :=
  serializeShieldedAction item.1 item.2

theorem unambiguous_serializeVersioned (versions : Bool) : Unambiguous fun item s =>
    item.2.isSome = versions ∧ Sends serializeVersioned item s := by
  rintro a b _ _ x y ⟨ha, _, hps, rfl⟩ ⟨hb, _, hqs, rfl⟩ h
  obtain ⟨haction, hversion, hrest⟩ := serializeShieldedAction_inj (ha.trans hb.symm) hps hqs h
  exact ⟨Prod.ext haction hversion, hrest⟩

/-- The actions of a bundle with their note versions. -/
def versioned (actions : List ShieldedAction) (noteVersion : ℕ → Option UInt8) :
    List VersionedAction :=
  actions.zipIdx.map fun item => (item.1, noteVersion item.2)

theorem map_fst_versioned (actions : List ShieldedAction) (noteVersion : ℕ → Option UInt8) :
    (versioned actions noteVersion).map Prod.fst = actions := by
  simp [versioned, Function.comp_def]

theorem length_versioned (actions : List ShieldedAction) (noteVersion : ℕ → Option UInt8) :
    (versioned actions noteVersion).length = actions.length := by
  simp [versioned]

/-- A balance, from its magnitude and its sign. -/
theorem balance_inj {m n : ℤ} (hmagnitude : m.natAbs = n.natAbs)
    (hsign : (if m < 0 then 1 else 0 : UInt8) = if n < 0 then 1 else 0) : m = n := by
  split_ifs at hsign <;> first | omega | simp at hsign

/-- The bytes of a bundle whose actions carry the given versions. -/
theorem serializeShieldedBundle_eq_ok {actions : List ShieldedAction} {flags : UInt8}
    {balance : ℤ} {anchor : Fixed 32} {noteVersion : ℕ → Option UInt8} {packets : List Bytes} :
    serializeShieldedBundle actions flags balance anchor noteVersion = .ok packets ↔
      actions.length ≤ MAX_SHIELDED_ACTIONS ∧ ∃ count, compactSize actions.length = .ok count ∧
        (actions = [] ∧ packets = [count] ∨ actions ≠ [] ∧ ∃ parts,
          (versioned actions noteVersion).mapM serializeVersioned = .ok parts ∧
          balance.natAbs < 2 ^ 64 ∧
          packets = count :: (parts.flatten ++ [flags :: (leBytes 8 balance.natAbs ++
            [if balance < 0 then 1 else 0] ++ anchor.1)])) := by
  have hmapM : actions.zipIdx.mapM (fun item =>
      serializeShieldedAction item.1 (noteVersion item.2)) =
      (versioned actions noteVersion).mapM serializeVersioned := by
    rw [versioned, List.mapM_map]
    rfl
  by_cases hactions : actions = []
  · subst hactions
    simp only [serializeShieldedBundle, ensureCount, bind_eq_ok, ensure_eq_ok, List.isEmpty_nil,
      if_true, pure_eq_ok]
    simp [eq_comm]
  · have hempty : actions.isEmpty = false := by simpa using hactions
    simp only [serializeShieldedBundle, ensureCount, bind_eq_ok, ensure_eq_ok, hempty, hmapM,
      Bool.false_eq_true, if_false, pure_eq_ok, hactions]
    grind

theorem serializeShieldedBundle_inj {actions actions' : List ShieldedAction} {f f' : UInt8}
    {balance balance' : ℤ} {anchor anchor' : Fixed 32} {v v' : ℕ → Option UInt8}
    {ps qs : List Bytes} {versions : Bool}
    (hv : ∀ item ∈ versioned actions v, item.2.isSome = versions)
    (hv' : ∀ item ∈ versioned actions' v', item.2.isSome = versions)
    (hps : serializeShieldedBundle actions f balance anchor v = .ok ps)
    (hqs : serializeShieldedBundle actions' f' balance' anchor' v' = .ok qs)
    (h : ps.flatten = qs.flatten) :
    versioned actions v = versioned actions' v' ∧
      (actions ≠ [] → f = f' ∧ balance = balance' ∧ anchor = anchor') := by
  obtain ⟨-, m, hm, hps⟩ := serializeShieldedBundle_eq_ok.1 hps
  obtain ⟨-, n, hn, hqs⟩ := serializeShieldedBundle_eq_ok.1 hqs
  have hwords {item : VersionedAction → Prop} {l : List VersionedAction}
      {parts : List (List Bytes)} (hl : ∀ a ∈ l, item a) (hparts : l.mapM serializeVersioned =
        .ok parts) : List.Forall₂ (fun a s => item a ∧ Sends serializeVersioned a s) l
          (parts.map List.flatten) :=
    ((List.forall₂_and_left _ _).2 ⟨hl, sends_of_mapM hparts⟩)
  -- The counts are told apart first.
  have hcount : actions.length = actions'.length ∧ ps.flatten.drop m.length =
      qs.flatten.drop n.length := by
    obtain ⟨-, rfl⟩ | ⟨-, _, -, -, rfl⟩ := hps <;> obtain ⟨-, rfl⟩ | ⟨-, _, -, -, rfl⟩ := hqs <;>
    rw [List.flatten_cons, List.flatten_cons] at h ⊢ <;>
    simpa only [List.drop_left] using unambiguous_compactSize hm hn h
  obtain ⟨hlength, hrest⟩ := hcount
  obtain ⟨rfl, rfl⟩ | ⟨hne, parts, hparts, hbalance, rfl⟩ := hps
  · obtain rfl := List.length_eq_zero_iff.1 hlength.symm
    exact ⟨rfl, fun hne => absurd rfl hne⟩
  · obtain ⟨rfl, rfl⟩ | ⟨hne', parts', hparts', hbalance', rfl⟩ := hqs
    · exact absurd (List.length_eq_zero_iff.1 hlength) hne
    · simp only [List.flatten_cons, List.drop_left, List.flatten_append, List.flatten_nil,
        List.append_nil, List.flatten_flatten] at hrest
      obtain ⟨hactions, htrailer⟩ := (unambiguous_serializeVersioned versions).list
        (hwords hv hparts) (hwords hv' hparts') (by simpa only [length_versioned] using hlength)
        hrest
      refine ⟨hactions, fun _ => ?_⟩
      obtain ⟨hflags, htrailer⟩ := List.cons.inj htrailer
      rw [List.append_assoc, List.append_assoc, leBytes_append_inj (by simpa using hbalance)
        (by simpa using hbalance'), List.singleton_append, List.singleton_append,
        List.cons.injEq] at htrailer
      exact ⟨hflags, balance_inj htrailer.1 htrailer.2.1, Subtype.ext htrailer.2.2⟩

/-! ### Bundles as they are sent -/

/-- A bundle as it is sent: one without actions counts as missing. -/
def ShieldedBundle.sent (bundle : Option ShieldedBundle) : Option ShieldedBundle :=
  bundle.filter fun b => !b.actions.isEmpty

@[inherit_doc ShieldedBundle.sent]
def IronwoodBundle.sent (bundle : Option IronwoodBundle) : Option IronwoodBundle :=
  bundle.filter fun b => !b.actions.isEmpty

/-- An all-zero anchor. -/
def zeroAnchor : Fixed 32 := Fixed.replicate 32 0

def ShieldedBundle.empty : ShieldedBundle := ⟨[], 0, 0, zeroAnchor⟩

def IronwoodBundle.empty : IronwoodBundle := ⟨[], 0, 0, zeroAnchor⟩

theorem serializeOrchardBundle_getD (bundle : Option ShieldedBundle) :
    serializeOrchardBundle (some (bundle.getD ShieldedBundle.empty)) =
      serializeOrchardBundle bundle := by
  cases bundle <;> rfl

theorem serializeIronwoodBundle_getD (bundle : Option IronwoodBundle) :
    serializeIronwoodBundle (some (bundle.getD IronwoodBundle.empty)) =
      serializeIronwoodBundle bundle := by
  cases bundle <;> rfl

theorem ShieldedBundle.sent_getD (bundle : Option ShieldedBundle) :
    ShieldedBundle.sent (some (bundle.getD ShieldedBundle.empty)) = ShieldedBundle.sent bundle := by
  cases bundle <;> rfl

theorem IronwoodBundle.sent_getD (bundle : Option IronwoodBundle) :
    IronwoodBundle.sent (some (bundle.getD IronwoodBundle.empty)) = IronwoodBundle.sent bundle := by
  cases bundle <;> rfl

theorem versioned_ironwood (actions : List IronwoodAction) :
    versioned (actions.map (·.action)) (fun i => (actions[i]?).map (·.notePlaintextVersion)) =
      actions.map fun item => (item.action, some item.notePlaintextVersion) := by
  refine List.ext_getElem (by simp [versioned]) fun i hi hi' => ?_
  have hlt : i < actions.length := by simpa using hi'
  simp [versioned, List.getElem?_eq_getElem hlt]

theorem serializeOrchardBundle_inj {b b' : Option ShieldedBundle} {s : Bytes}
    (h : Sends serializeOrchardBundle b s) (h' : Sends serializeOrchardBundle b' s) :
    ShieldedBundle.sent b = ShieldedBundle.sent b' := by
  obtain ⟨ps, hps, rfl⟩ := h
  obtain ⟨qs, hqs, hwords⟩ := h'
  rw [← serializeOrchardBundle_getD] at hps hqs
  rw [← ShieldedBundle.sent_getD b, ← ShieldedBundle.sent_getD b']
  generalize b.getD ShieldedBundle.empty = c at hps ⊢
  generalize b'.getD ShieldedBundle.empty = c' at hqs ⊢
  obtain ⟨actions, flags, balance, anchor⟩ := c
  obtain ⟨actions', flags', balance', anchor'⟩ := c'
  have hversions (l : List ShieldedAction) :
      ∀ item ∈ versioned l fun _ => none, item.2.isSome = false := by
    intro item hitem
    obtain ⟨_, -, rfl⟩ := List.mem_map.1 hitem
    rfl
  obtain ⟨hactions, htrailer⟩ :=
    serializeShieldedBundle_inj (hversions actions) (hversions actions') hps hqs hwords.symm
  obtain rfl : actions = actions' := by
    rw [← map_fst_versioned actions fun _ => none, hactions, map_fst_versioned]
  by_cases hempty : actions = []
  · subst hempty
    rfl
  · obtain ⟨rfl, rfl, rfl⟩ := htrailer hempty
    rfl

theorem serializeIronwoodBundle_inj {b b' : Option IronwoodBundle} {s : Bytes}
    (h : Sends serializeIronwoodBundle b s) (h' : Sends serializeIronwoodBundle b' s) :
    IronwoodBundle.sent b = IronwoodBundle.sent b' := by
  obtain ⟨ps, hps, rfl⟩ := h
  obtain ⟨qs, hqs, hwords⟩ := h'
  rw [← serializeIronwoodBundle_getD] at hps hqs
  rw [← IronwoodBundle.sent_getD b, ← IronwoodBundle.sent_getD b']
  generalize b.getD IronwoodBundle.empty = c at hps ⊢
  generalize b'.getD IronwoodBundle.empty = c' at hqs ⊢
  obtain ⟨actions, flags, balance, anchor⟩ := c
  obtain ⟨actions', flags', balance', anchor'⟩ := c'
  have hversions (l : List IronwoodAction) : ∀ item ∈ versioned (l.map (·.action))
      (fun i => (l[i]?).map (·.notePlaintextVersion)), item.2.isSome = true := by
    simp [versioned_ironwood]
  obtain ⟨hactions, htrailer⟩ :=
    serializeShieldedBundle_inj (hversions actions) (hversions actions') hps hqs hwords.symm
  rw [versioned_ironwood, versioned_ironwood] at hactions
  obtain rfl : actions = actions' := by
    refine (List.map_injective_iff.2 fun a a' ha => ?_) hactions
    cases a
    cases a'
    simpa using ha
  by_cases hempty : actions = []
  · subst hempty
    rfl
  · obtain ⟨rfl, rfl, rfl⟩ := htrailer (by simpa using hempty)
    rfl

theorem serializeHeader_inj {g g' : Global} (h : serializeHeader g = serializeHeader g') :
    g = g' := by
  simp only [serializeHeader, List.append_assoc, List.append_cancel_left_eq, u32le_append_inj,
    flagged_append_inj u32le_append_inj, List.cons.injEq, and_true] at h
  cases g
  cases g'
  simp_all

end VizorWallet.Ledger
