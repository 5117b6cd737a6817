import VizorWallet.Library.Bytes

/-!
# Recursive length prefixes

The encoding of byte strings, numbers and lists of encoded items.
-/

namespace VizorWallet.Rlp

/-- A number in big-endian bytes, without leading zeros. -/
def bigEndian (n : ℕ) : Bytes := (Nat.digits 256 n).reverse.map UInt8.ofNat

/-- The prefix of a payload, from the offset of its kind. -/
def header (offset length : ℕ) : Bytes :=
  if length < 56 then [UInt8.ofNat (offset + length)]
  else UInt8.ofNat (offset + 55 + (bigEndian length).length) :: bigEndian length

/-- A byte string. -/
def bytes (b : Bytes) : Bytes :=
  if b.length = 1 ∧ b.all (· < 0x80) then b else header 0x80 b.length ++ b

/-- A number, as its big-endian bytes. -/
def number (n : ℕ) : Bytes := bytes (bigEndian n)

/-- A list of encoded items. -/
def list (items : List Bytes) : Bytes := header 0xc0 items.flatten.length ++ items.flatten

end VizorWallet.Rlp
