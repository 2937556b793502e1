import Signatory.Curve.Point
import Signatory.Hash.Sha512

/-!
# Ed25519 signatures

Public keys, signatures and their verification. A secret is any 32 bytes. Verification recomputes
the first half of the signature from the second and compares bytes: the second half must be below
the order of the base point, while the public key may be any bytes that name a point.
-/

namespace Signatory.Ed25519

open Curve

/-- Bytes in a secret and in a public key. -/
def keyLength : Nat := 32

/-- Bytes in a signature. -/
def signatureLength : Nat := 64

/-- The multiplier and the tag that a secret is expanded into. -/
def expand (secret : Bytes) : Nat × Bytes :=
  let h := Hash.sha512 secret
  let n := Bytes.toNatLE (h.take 32)
  (n % 2 ^ 254 / 8 * 8 + 2 ^ 254, h.drop 32)

/-- The digest of some byte strings as a multiplier of the base point. -/
def challenge (parts : List Bytes) : Nat :=
  Bytes.toNatLE (Hash.sha512 parts.flatten) % Point.order

/-- The public key of a secret. -/
def publicKey (secret : Bytes) : Bytes :=
  (Point.base.multiple (expand secret).1).compress

/-- The signature of a message under a secret whose public key is given. -/
def sign (secret key message : Bytes) : Bytes :=
  let (a, tag) := expand secret
  let r := challenge [tag, message]
  let big := (Point.base.multiple r).compress
  let s := (r + challenge [big, key, message] * a) % Point.order
  big ++ Bytes.littleEndian 32 s

/-- Whether some bytes name a public key: they are 32 and name a point. -/
def isPublicKey (key : Bytes) : Bool :=
  key.length = keyLength && (Point.decompress? key).isSome

/-- Whether a signature is valid for a message under a public key. -/
def verify (key message signature : Bytes) : Bool :=
  if key.length = keyLength ∧ signature.length = signatureLength then
    match Point.decompress? key with
    | none => false
    | some point =>
      let first := signature.take 32
      let s := Bytes.toNatLE (signature.drop 32)
      let k := challenge [first, key, message]
      decide (s < Point.order) && (Point.combine k point.neg s Point.base).compress == first
  else false

end Signatory.Ed25519
