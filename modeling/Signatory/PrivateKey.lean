import Signatory.Ed25519
import Signatory.Failure
import Signatory.Text.Blank

/-!
# Private keys

A private key is 32 bytes, written as hexadecimal digits with blanks around them and one 0x before
them at most. A signing key is a private key together with the public key that belongs to it.
-/

namespace Signatory

/-- Private key material. -/
structure PrivateKey where
  bytes : Bytes
  length_eq : bytes.length = Ed25519.keyLength
  deriving DecidableEq

namespace PrivateKey

/-- The private key with the given bytes, if they are 32. -/
def ofBytes? (bytes : Bytes) : Option PrivateKey :=
  if h : bytes.length = Ed25519.keyLength then some ⟨bytes, h⟩ else none

/-- Read a private key. -/
def ofText (text : String) : Except Failure PrivateKey :=
  match Hex.decode (Hex.dropMark (Text.trim text.toList)) with
  | .error fault => .error (.invalidKey (.notHex fault))
  | .ok bytes =>
    match ofBytes? bytes with
    | some key => .ok key
    | none => .error (.invalidKey (.wrongLength bytes.length))

/-- What is shown of a private key. -/
def summary (_ : PrivateKey) : String :=
  "PrivateKeyMaterial(<redacted>)"

end PrivateKey

/-- A private key with its public key. -/
structure SigningKey where
  secret : PrivateKey
  publicKey : Bytes
  publicKey_eq : publicKey = Ed25519.publicKey secret.bytes

namespace SigningKey

/-- The signing key of a private key. -/
def ofPrivateKey (key : PrivateKey) : SigningKey :=
  ⟨key, Ed25519.publicKey key.bytes, rfl⟩

/-- The signature of a message. -/
def sign (key : SigningKey) (message : Bytes) : Bytes :=
  Ed25519.sign key.secret.bytes key.publicKey message

end SigningKey

end Signatory
