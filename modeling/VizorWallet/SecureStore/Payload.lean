import VizorWallet.PaymentLink.Link

/-!
# Encrypted payloads

The payloads of `secret_payload.rs`, in which the app keeps its secrets: a JSON object of a nonce, a
cipher text and its tag, under a key that is derived from a password and a salt.

## Main definitions

* `Packages` — ciphers, key derivation and texts.
* `encryptSecretPayload`, `decryptSecretPayload`, `deriveSecretPasswordVerifier`.

## Main results

* `decryptSecretPayload_of_encrypt` — a payload decrypts under its password and salt.
* `isEncryptedPayload_of_decrypt` — what decrypts is told from other texts.
-/

namespace VizorWallet.SecureStore

open CodeUnits PaymentLink

/-- The build's configuration, ciphers, and packages that read and write texts. -/
structure Packages (Double : Type) where
  /-- Linux. -/
  enforcesSessionGeneration : Bool
  /-- macOS. -/
  usesSeparateMacOsMnemonicStorage : Bool
  /-- `kWalletPasswordMinLength` -/
  walletPasswordMinLength : ℕ
  jsonEncode : Value Double → Option CodeUnits
  jsonDecode : CodeUnits → Option (Value Double)
  /-- `x == n` -/
  equalsInt : Double → Int64 → Bool
  utf8Encode : CodeUnits → Bytes
  base64Encode : Bytes → CodeUnits
  base64Decode : CodeUnits → Option Bytes
  /-- `pbkdf2_hmac::<Sha256>`: a password, a salt, the iterations and the length of the key. -/
  pbkdf2 : Bytes → Bytes → ℕ → ℕ → Bytes
  /-- AES-256-GCM: a key, a nonce and a clear text. -/
  aesEncrypt : Bytes → Bytes → Bytes → Option Bytes
  aesDecrypt : Bytes → Bytes → Bytes → Option Bytes

variable {Double : Type} (P : Packages Double)

/-- What the packages are relied on for. -/
structure Packages.Faithful : Prop where
  jsonDecode_jsonEncode : ∀ {value text}, P.jsonEncode value = some text →
    P.jsonDecode text = some value
  jsonDecode_nil : P.jsonDecode [] = none
  base64Decode_base64Encode : ∀ bytes, P.base64Decode (P.base64Encode bytes) = some bytes
  base64Encode_ne_nil : ∀ {bytes}, bytes ≠ [] → P.base64Encode bytes ≠ []
  length_pbkdf2 : ∀ password salt iterations length,
    (P.pbkdf2 password salt iterations length).length = length
  aesDecrypt_aesEncrypt : ∀ {key nonce clearText cipherText},
    P.aesEncrypt key nonce clearText = some cipherText →
    P.aesDecrypt key nonce cipherText = some clearText

theorem Packages.Faithful.jsonEncode_ne_nil {P : Packages Double} (hP : P.Faithful)
    {value : Value Double} {text : CodeUnits} (h : P.jsonEncode value = some text) : text ≠ [] := by
  rintro rfl
  have hnone := hP.jsonDecode_jsonEncode h
  rw [hP.jsonDecode_nil] at hnone
  cases hnone

def kdfIterations : ℕ := 100000

def keyLen : ℕ := 32

def nonceLen : ℕ := 12

def macLen : ℕ := 16

def decodeBase64 (input : CodeUnits) (error : String) : Except String Bytes :=
  orError (P.base64Decode input) error

def deriveKey (password salt : Bytes) : Bytes := P.pbkdf2 password salt kdfIterations keyLen

def encryptWithCipher (key nonce clearText : Bytes) : Except String CodeUnits := do
  let cipherTextAndTag ← orError (P.aesEncrypt key nonce clearText)
    "Failed to encrypt secure-storage payload"
  ensure (macLen ≤ cipherTextAndTag.length) "Encrypted payload is shorter than AES-GCM tag"
  let splitAt := cipherTextAndTag.length - macLen
  orError (P.jsonEncode (.map [
    (literal "v", .int 1),
    (literal "n", .string (P.base64Encode nonce)),
    (literal "c", .string (P.base64Encode (cipherTextAndTag.take splitAt))),
    (literal "m", .string (P.base64Encode (cipherTextAndTag.drop splitAt)))]))
    "Failed to serialize encrypted payload"

structure EncryptedPayload where
  version : Int64
  nonce : CodeUnits
  cipherText : CodeUnits
  mac : CodeUnits

/-- `serde_json::from_slice` -/
def EncryptedPayload.fromJson? (value : Value Double) : Option EncryptedPayload := do
  let entries ← value.map?
  -- the version is a `u8`
  let version ← (lookup entries "v").int?.filter fun v => 0 ≤ v ∧ v < 256
  let nonce ← (lookup entries "n").string?
  let cipherText ← (lookup entries "c").string?
  let mac ← (lookup entries "m").string?
  return ⟨version, nonce, cipherText, mac⟩

def decryptWithCipher (key : Bytes) (rawPayload : CodeUnits) : Except String Bytes := do
  let payload ← orError (P.jsonDecode rawPayload >>= EncryptedPayload.fromJson?)
    "Failed to parse encrypted payload"
  ensure (payload.version = 1) "Unsupported encrypted payload version"
  let nonce ← decodeBase64 P payload.nonce "Failed to decode encrypted payload nonce"
  ensure (nonce.length = nonceLen) "Invalid encrypted payload nonce length"
  let cipherText ← decodeBase64 P payload.cipherText
    "Failed to decode encrypted payload cipher text"
  let mac ← decodeBase64 P payload.mac "Failed to decode encrypted payload mac"
  ensure (mac.length = macLen) "Invalid encrypted payload mac length"
  orError (P.aesDecrypt key nonce (cipherText ++ mac)) "Failed to decrypt secure-storage payload"

def encryptSecretPayload (plainBytes : Bytes) (password saltBase64 : CodeUnits) (nonce : Bytes) :
    Except String CodeUnits := do
  let salt ← decodeBase64 P saltBase64 "Failed to decode secure storage salt"
  encryptWithCipher P (deriveKey P (P.utf8Encode password) salt) nonce plainBytes

def decryptSecretPayload (payloadJson password saltBase64 : CodeUnits) : Except String Bytes := do
  let salt ← decodeBase64 P saltBase64 "Failed to decode secure storage salt"
  decryptWithCipher P (deriveKey P (P.utf8Encode password) salt) payloadJson

def deriveSecretPasswordVerifier (password saltBase64 : CodeUnits) : Except String CodeUnits := do
  let salt ← decodeBase64 P saltBase64 "Failed to decode password verifier salt"
  return P.base64Encode (deriveKey P (P.utf8Encode password) salt)

/-- `value == n` -/
def equalsNumber (value : Value Double) (n : Int64) : Bool :=
  match value with
  | .int m => m = n
  | .double x => P.equalsInt x n
  | _ => false

/-- `_isEncryptedPayload` -/
def isEncryptedPayload (raw : CodeUnits) : Bool :=
  match P.jsonDecode raw with
  | some (.map json) => equalsNumber P (lookup json "v") 1 &&
    ((lookup json "n").string?.bind P.base64Decode).isSome &&
    ((lookup json "c").string?.bind P.base64Decode).isSome &&
    ((lookup json "m").string?.bind P.base64Decode).isSome
  | _ => false

variable {P} {plainBytes nonce : Bytes} {password saltBase64 payload : CodeUnits}

theorem encryptSecretPayload_eq_ok :
    encryptSecretPayload P plainBytes password saltBase64 nonce = .ok payload ↔
      ∃ salt, P.base64Decode saltBase64 = some salt ∧ ∃ cipherText tag, tag.length = macLen ∧
        P.aesEncrypt (deriveKey P (P.utf8Encode password) salt) nonce plainBytes =
          some (cipherText ++ tag) ∧
        P.jsonEncode (.map [
          (literal "v", .int 1),
          (literal "n", .string (P.base64Encode nonce)),
          (literal "c", .string (P.base64Encode cipherText)),
          (literal "m", .string (P.base64Encode tag))]) = some payload := by
  simp only [encryptSecretPayload, encryptWithCipher, decodeBase64, bind_eq_ok, orError_eq_ok,
    ensure_eq_ok]
  constructor
  · rintro ⟨salt, hsalt, text, htext, -, hlength, hjson⟩
    refine ⟨salt, hsalt, _, _, ?_, ?_, hjson⟩
    · rw [List.length_drop]
      omega
    · rw [List.take_append_drop]
      exact htext
  · rintro ⟨salt, hsalt, cipherText, tag, htag, htext, hjson⟩
    have hsplit : (cipherText ++ tag).length - macLen = cipherText.length := by
      rw [List.length_append, htag, Nat.add_sub_cancel]
    refine ⟨salt, hsalt, _, htext, (), ?_, ?_⟩
    · rw [List.length_append, htag]
      exact Nat.le_add_left _ _
    · rw [hsplit, List.take_left, List.drop_left]
      exact hjson

/-- A payload decrypts under its password and salt. -/
theorem decryptSecretPayload_of_encrypt (hP : P.Faithful) (hnonce : nonce.length = nonceLen)
    (h : encryptSecretPayload P plainBytes password saltBase64 nonce = .ok payload) :
    decryptSecretPayload P payload password saltBase64 = .ok plainBytes := by
  obtain ⟨salt, hsalt, cipherText, tag, htag, htext, hjson⟩ := encryptSecretPayload_eq_ok.1 h
  have hread : P.jsonDecode payload >>= EncryptedPayload.fromJson? =
      some ⟨1, P.base64Encode nonce, P.base64Encode cipherText, P.base64Encode tag⟩ := by
    rw [hP.jsonDecode_jsonEncode hjson]
    rfl
  simp only [decryptSecretPayload, decryptWithCipher, decodeBase64, hsalt, orError_some, ok_bind,
    hread, hP.base64Decode_base64Encode, ensure_of _ hnonce, ensure_of _ htag,
    hP.aesDecrypt_aesEncrypt htext]
  rfl

theorem map?_eq_some {value : Value Double} {json : List (CodeUnits × Value Double)}
    (h : value.map? = some json) : value = .map json := by
  cases value <;> simp_all [Value.map?]

theorem int?_eq_some {value : Value Double} {n : Int64} (h : value.int? = some n) :
    value = .int n := by
  cases value <;> simp_all [Value.int?]

/-- What decrypts is told from other texts. -/
theorem isEncryptedPayload_of_decrypt
    (h : decryptSecretPayload P payload password saltBase64 = .ok plainBytes) :
    isEncryptedPayload P payload := by
  simp only [decryptSecretPayload, decryptWithCipher, decodeBase64, bind_eq_ok, orError_eq_ok,
    ensure_eq_ok] at h
  obtain ⟨-, -, parsed, hparse, -, hversion, nonce, hnonce, -, -, cipherText, hcipherText, mac,
    hmac, -⟩ := h
  obtain ⟨value, hvalue, hjson⟩ := bind_eq_some.1 hparse
  obtain ⟨json, hmap, hjson⟩ := bind_eq_some.1 hjson
  obtain ⟨version, hv, hjson⟩ := bind_eq_some.1 hjson
  obtain ⟨n, hn, hjson⟩ := bind_eq_some.1 hjson
  obtain ⟨c, hc, hjson⟩ := bind_eq_some.1 hjson
  obtain ⟨m, hm, hjson⟩ := bind_eq_some.1 hjson
  obtain rfl := Option.some.inj hjson
  obtain rfl : version = 1 := hversion
  rw [map?_eq_some hmap] at hvalue
  have hint := int?_eq_some (Option.filter_eq_some_iff.1 hv).1
  simp [isEncryptedPayload, hvalue, hint, equalsNumber, hn, hc, hm, hnonce, hcipherText, hmac]

/-- No text does not decrypt. -/
theorem ne_nil_of_decrypt (hP : P.Faithful)
    (h : decryptSecretPayload P payload password saltBase64 = .ok plainBytes) : payload ≠ [] := by
  rintro rfl
  simp [decryptSecretPayload, decryptWithCipher, hP.jsonDecode_nil] at h

/-- The verifier of a password has some text. -/
theorem deriveSecretPasswordVerifier_ne_nil (hP : P.Faithful) {verifier : CodeUnits}
    (h : deriveSecretPasswordVerifier P password saltBase64 = .ok verifier) : verifier ≠ [] := by
  simp only [deriveSecretPasswordVerifier, bind_eq_ok, pure_eq_ok] at h
  obtain ⟨salt, -, rfl⟩ := h
  refine hP.base64Encode_ne_nil fun hnil => ?_
  have hlength := hP.length_pbkdf2 (P.utf8Encode password) salt kdfIterations keyLen
  rw [← deriveKey, hnil] at hlength
  cases hlength

end VizorWallet.SecureStore
