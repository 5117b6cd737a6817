import VizorWallet.Library.Base64Url
import VizorWallet.Library.Json
import VizorWallet.Library.Outcome

/-!
# The contact wire profile

Canonical JSON, fixed-length Base64 fields, Ed25519 identities and addresses of the contact
exchange. A string is its UTF-8 bytes. The packages behind it are a parameter.

## Main definitions

* `Packages` — `serde_json`, `sha2`, `curve25519_dalek` and `ed25519_dalek`.
* `canonicalJson`, `decode`, `identity`, `verifySignature`, `validAddress` — the checks.
* `Packages.Honest` — what the packages promise about their own output.
-/

namespace VizorWallet.Contact

open Json

/-- The functions of other packages. -/
structure Packages where
  /-- `serde_json::from_slice`. -/
  fromSlice : Bytes → Option Value
  /-- `Sha256::digest`. -/
  sha256 : Bytes → Fixed 32
  /-- `EdwardsPoint`. -/
  Point : Type
  /-- `CompressedEdwardsY::decompress`. -/
  decompress : Fixed 32 → Option Point
  /-- `EdwardsPoint::compress`. -/
  compress : Point → Fixed 32
  isIdentity : Point → Bool
  isTorsionFree : Point → Bool
  /-- `Scalar::from_canonical_bytes(..).is_some()`. -/
  isCanonicalScalar : Fixed 32 → Bool
  /-- `VerifyingKey::from_bytes(..).is_ok()`. -/
  isVerifyingKey : Fixed 32 → Bool
  /-- `VerifyingKey::verify_strict(..).is_ok()`. -/
  verifyStrict : Fixed 32 → Bytes → Fixed 64 → Bool
  /-- `SigningKey::verifying_key`, from the seed. -/
  verifyingKey : Fixed 32 → Fixed 32
  /-- `SigningKey::sign`, from the seed. -/
  sign : Fixed 32 → Bytes → Fixed 64

def maxInputBytes : ℕ := 32_768

def maxSafeInteger : ℕ := 9_007_199_254_740_991

def maxEncodedBytes : ℕ := 12_000

inductive Network where
  | main
  | test
  | regtest
  deriving DecidableEq, Repr

def Network.wireName : Network → Bytes
  | main => ascii "zcash-mainnet"
  | test => ascii "zcash-testnet"
  | regtest => ascii "zcash-regtest"

/-! ## Values -/

/-- The value whose compact text is `bytes`. -/
def canonicalJson (P : Packages) (bytes : Bytes) : Option Value := do
  guard (bytes.length ≤ maxInputBytes)
  let value ← P.fromSlice bytes
  guard (value.print = bytes)
  return value

/-- The items of an array of this length. -/
def array (value : Value) (length : ℕ) : Option (List Value) :=
  value.items?.filter fun values => values.length = length

/-- A natural number that every JSON reader represents exactly. -/
def integer (value : Value) : Option ℕ := value.number?.filter (· ≤ maxSafeInteger)

/-- The bytes of a Base64 text, which is their only encoding. -/
def decode (encoded : Bytes) : Option Bytes := do
  guard (encoded ≠ [] ∧ encoded.length ≤ maxEncodedBytes ∧
    encoded.all Base64Url.isUrlSafe)
  let bytes ← Base64Url.decode encoded
  guard (Base64Url.encode bytes = encoded)
  return bytes

/-- Exactly `n` encoded bytes. -/
def fixed (n : ℕ) (encoded : Bytes) : Option (Fixed n) := do
  let bytes ← decode encoded
  if h : bytes.length = n then some ⟨bytes, h⟩ else none

/-! ## Keys and signatures -/

/-- A canonical encoding of a torsion-free point other than the identity. -/
def profilePoint (P : Packages) (bytes : Fixed 32) : Option Unit := do
  let point ← P.decompress bytes
  guard ¬(P.compress point ≠ bytes ∨ P.isIdentity point ∨ ¬P.isTorsionFree point)

/-- The scheme of an identity. -/
def identityScheme : Bytes := ascii "ed25519:"

/-- The key of an identity. -/
def identity (P : Packages) (value : Bytes) : Option (Fixed 32) := do
  guard (identityScheme.isPrefixOf value)
  let key ← fixed 32 (value.drop identityScheme.length)
  profilePoint P key
  return key

/-- The point of a signature. -/
def signaturePoint (signature : Fixed 64) : Fixed 32 :=
  ⟨signature.val.take 32, by simp [signature.property]⟩

/-- The scalar of a signature. -/
def signatureScalar (signature : Fixed 64) : Fixed 32 :=
  ⟨signature.val.drop 32, by simp [signature.property]⟩

def verifySignature (P : Packages) (key : Fixed 32) (message : Bytes) (signature : Fixed 64) :
    Option Unit := do
  profilePoint P key
  profilePoint P (signaturePoint signature)
  guard (P.isCanonicalScalar (signatureScalar signature))
  guard (P.isVerifyingKey key)
  guard (P.verifyStrict key message signature)

/-- The identity of a seed. -/
def keyIdentity (P : Packages) (seed : Fixed 32) : Bytes :=
  identityScheme ++ Base64Url.encode (P.verifyingKey seed).val

/-! ## Addresses -/

/-- The encodings of the characters that `str::trim` removes. -/
def whiteSpace : List Bytes :=
  [[0x09], [0x0a], [0x0b], [0x0c], [0x0d], [0x20], [0xc2, 0x85], [0xc2, 0xa0],
    [0xe1, 0x9a, 0x80], [0xe2, 0x80, 0x80], [0xe2, 0x80, 0x81], [0xe2, 0x80, 0x82],
    [0xe2, 0x80, 0x83], [0xe2, 0x80, 0x84], [0xe2, 0x80, 0x85], [0xe2, 0x80, 0x86],
    [0xe2, 0x80, 0x87], [0xe2, 0x80, 0x88], [0xe2, 0x80, 0x89], [0xe2, 0x80, 0x8a],
    [0xe2, 0x80, 0xa8], [0xe2, 0x80, 0xa9], [0xe2, 0x80, 0xaf], [0xe2, 0x81, 0x9f],
    [0xe3, 0x80, 0x80]]

/-- `s.trim() == s`. -/
def isTrimmed (s : Bytes) : Bool :=
  whiteSpace.all fun space => !space.isPrefixOf s && !space.isSuffixOf s

def validAddress (network : Network) (address : Bytes) (validate : Network → Bytes → Bool) :
    Option Unit :=
  guard (address ≠ [] ∧ address.length ≤ 512 ∧ isTrimmed address ∧ validate network address)

/-! ## What the checks accept -/

variable {P : Packages}

@[simp] theorem guard_eq_some {p : Prop} [Decidable p] {u : Unit} :
    (guard p : Option Unit) = some u ↔ p := by
  by_cases h : p <;> simp [guard, h]

theorem canonicalJson_eq_some {bytes : Bytes} {value : Value} :
    canonicalJson P bytes = some value ↔
      bytes.length ≤ maxInputBytes ∧ P.fromSlice bytes = some value ∧ value.print = bytes := by
  simp only [canonicalJson, Option.bind_eq_bind, Option.bind_eq_some_iff, guard_eq_some,
    Option.pure_def, Option.some.injEq]
  grind

@[simp] theorem array_eq_some {value : Value} {length : ℕ} {values : List Value} :
    array value length = some values ↔ value = .array values ∧ values.length = length := by
  simp [array, Option.filter_eq_some_iff]

@[simp] theorem integer_eq_some {value : Value} {n : ℕ} :
    integer value = some n ↔ value = .number n ∧ n ≤ maxSafeInteger := by
  simp [integer, Option.filter_eq_some_iff]

/-- A decoded text is the encoding of its bytes. -/
theorem decode_eq_some {encoded bytes : Bytes} :
    decode encoded = some bytes ↔ encoded = Base64Url.encode bytes ∧ bytes ≠ [] ∧
      encoded.length ≤ maxEncodedBytes := by
  simp only [decode, Option.bind_eq_bind, Option.bind_eq_some_iff, guard_eq_some,
    Option.pure_def, Option.some.injEq, List.all_eq_true]
  constructor
  · rintro ⟨-, ⟨hne, hle, -⟩, b, -, -, rfl, rfl⟩
    refine ⟨rfl, ?_, hle⟩
    rintro rfl
    exact hne rfl
  · rintro ⟨rfl, hne, hle⟩
    refine ⟨(), ⟨?_, hle, fun c hc => Base64Url.isUrlSafe_of_mem_encode hc⟩, bytes,
      Base64Url.decode_encode bytes, (), rfl, rfl⟩
    intro hnil
    exact hne (Base64Url.encode_injective hnil)

theorem fixed_eq_some {n : ℕ} (hn : n ≠ 0) (hmax : n ≤ 9_000) {encoded : Bytes}
    {bytes : Fixed n} : fixed n encoded = some bytes ↔ encoded = Base64Url.encode bytes.val := by
  have hne : bytes.val ≠ [] := by
    rintro hnil
    exact hn (by simpa [hnil] using bytes.property.symm)
  have hle : (Base64Url.encode bytes.val).length ≤ maxEncodedBytes := by
    rw [Base64Url.length_encode, bytes.property, maxEncodedBytes]
    omega
  simp only [fixed, Option.bind_eq_bind, Option.bind_eq_some_iff, decode_eq_some]
  constructor
  · rintro ⟨b, ⟨rfl, -, -⟩, h⟩
    split_ifs at h with hlen
    obtain rfl := Option.some.inj h
    rfl
  · rintro rfl
    exact ⟨bytes.val, ⟨rfl, hne, hle⟩, dif_pos bytes.property⟩

theorem identity_eq_some {value : Bytes} {key : Fixed 32} :
    identity P value = some key ↔
      value = identityScheme ++ Base64Url.encode key.val ∧ profilePoint P key = some () := by
  simp only [identity, Option.bind_eq_bind, Option.bind_eq_some_iff, guard_eq_some,
    Option.pure_def, Option.some.injEq, List.isPrefixOf_iff_prefix,
    fixed_eq_some (n := 32) (by decide) (by decide)]
  constructor
  · rintro ⟨-, ⟨rest, rfl⟩, key', hkey, ⟨⟩, hpoint, rfl⟩
    rw [List.drop_left] at hkey
    exact ⟨by rw [hkey], hpoint⟩
  · rintro ⟨rfl, hpoint⟩
    exact ⟨(), ⟨_, rfl⟩, key, List.drop_left, (), hpoint, rfl⟩

theorem verifyStrict_of_verifySignature {key : Fixed 32} {message : Bytes}
    {signature : Fixed 64} {u : Unit} (h : verifySignature P key message signature = some u) :
    P.verifyStrict key message signature := by
  simp only [verifySignature, Option.bind_eq_bind, Option.bind_eq_some_iff, guard_eq_some] at h
  obtain ⟨-, -, -, -, -, -, -, -, hverify⟩ := h
  exact hverify

theorem validAddress_eq_some {network : Network} {address : Bytes}
    {validate : Network → Bytes → Bool} {u : Unit} :
    validAddress network address validate = some u ↔
      address ≠ [] ∧ address.length ≤ 512 ∧ isTrimmed address ∧ validate network address :=
  guard_eq_some

/-! ## The promises of the packages -/

/-- Plain values parse back from their text unless they are nested too deeply for the parser, and
honest keys and signatures are accepted. -/
structure Packages.Honest (P : Packages) : Prop where
  fromSlice_print : ∀ {value : Value}, value.Plain → value.depth < 128 →
    P.fromSlice value.print = some value
  profilePoint_verifyingKey : ∀ seed, profilePoint P (P.verifyingKey seed) = some ()
  verifySignature_sign : ∀ seed message,
    verifySignature P (P.verifyingKey seed) message (P.sign seed message) = some ()

theorem Packages.Honest.identity_keyIdentity (h : P.Honest) (seed : Fixed 32) :
    identity P (keyIdentity P seed) = some (P.verifyingKey seed) :=
  identity_eq_some.2 ⟨rfl, h.profilePoint_verifyingKey seed⟩

/-- Different keys have different identities. -/
theorem keyIdentity_inj {seed seed' : Fixed 32} :
    keyIdentity P seed = keyIdentity P seed' ↔ P.verifyingKey seed = P.verifyingKey seed' := by
  rw [keyIdentity, keyIdentity, List.append_cancel_left_eq, Base64Url.encode_injective.eq_iff,
    Subtype.val_inj]

theorem Packages.Honest.canonicalJson_print (h : P.Honest) {value : Value} (hplain : value.Plain)
    (hdepth : value.depth < 128) (hle : value.print.length ≤ maxInputBytes) :
    canonicalJson P value.print = some value :=
  canonicalJson_eq_some.2 ⟨hle, h.fromSlice_print hplain hdepth, rfl⟩

end VizorWallet.Contact
