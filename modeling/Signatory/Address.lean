import Signatory.Failure
import Signatory.Hash.Sha256
import Signatory.Json.Record

/-!
# Addresses

An address is the last 20 bytes of the digest of a public key. It is written as 0x and 40 digits,
and read with or without the 0x.
-/

namespace Signatory

/-- The address of an account. -/
structure Address where
  bytes : Bytes
  length_eq : bytes.length = 20
  deriving DecidableEq

namespace Address

/-- The address with the given bytes, if they are 20. -/
def ofBytes? (bytes : Bytes) : Option Address :=
  if h : bytes.length = 20 then some ⟨bytes, h⟩ else none

/-- The last 20 bytes of a byte string, with zeros before them if there are too few. -/
def tail (bytes : Bytes) : Address :=
  ⟨(List.replicate 20 0 ++ bytes).drop bytes.length, by
    rw [List.length_drop, List.length_append, List.length_replicate]; omega⟩

/-- The address that belongs to a public key. -/
def ofPublicKey (key : Bytes) : Address :=
  tail (Hash.sha256 key)

/-- The text of an address. -/
def text (a : Address) : String :=
  Hex.encodeMarked a.bytes

/-- What is shown of an address in summaries. -/
def summary (a : Address) : String :=
  s!"Address({a.text})"

/-- Read an address. -/
def ofText (text : String) : Except Failure Address :=
  match Hex.decode (Hex.dropMark text.toList) with
  | .error fault => .error (.config (.addressNotHex text fault))
  | .ok bytes =>
    match ofBytes? bytes with
    | some a => .ok a
    | none => .error (.config (.addressLength text))

/-- The JSON form of an address. -/
def toJson (a : Address) : Json.Value :=
  .string a.text

/-- Read the JSON form of an address. -/
def ofJson? (t : Json.Tree) : Option Address :=
  t.text?.bind fun text ↦ (ofText text).toOption

end Address

end Signatory
