import Signatory.Bytes
import Signatory.Text.Quoted
import Signatory.Text.Unsigned

/-!
# Hexadecimal text

Two digits per byte, most significant first: written in lower case, read in either. A text with an
odd number of UTF-8 bytes is refused before its characters are looked at; otherwise the first
character that is no digit is reported by its offset and its first UTF-8 byte.
-/

namespace Signatory.Hex

/-- Why a text is not a byte string in hexadecimal. -/
inductive Fault
  | oddLength
  | invalidByte (byte : UInt8) (offset : Nat)
  deriving DecidableEq, Repr

/-- The wording of a fault; a byte is shown as the character of its value. -/
def Fault.message : Fault → String
  | .oddLength => "Odd number of digits"
  | .invalidByte byte offset =>
    s!"Invalid character {Text.quotedChar (Char.ofNat byte.toNat)} at position {offset}"

/-- The two digits of a byte. -/
def pair (b : UInt8) : List Char :=
  [Text.digit (b.toNat / 16), Text.digit (b.toNat % 16)]

/-- The digits of a byte string. -/
def digits (bs : Bytes) : List Char :=
  bs.flatMap pair

/-- A byte string in hexadecimal. -/
def encode (bs : Bytes) : String :=
  String.ofList (digits bs)

/-- A byte string in hexadecimal, marked with a leading 0x. -/
def encodeMarked (bs : Bytes) : String :=
  String.ofList ('0' :: 'x' :: digits bs)

/-- The number of UTF-8 bytes of a text. -/
def utf8Length (s : List Char) : Nat :=
  s.foldl (fun n c ↦ n + c.utf8Size) 0

/-- The first UTF-8 byte of a character. -/
def leadByte (c : Char) : UInt8 :=
  (String.utf8EncodeChar c).headD 0

/-- Read digits two by two; `offset` digits were read before, and `done` holds their bytes, last
first. -/
def decodePairs : (offset : Nat) → (done : Bytes) → List Char → Except Fault Bytes
  | _, done, [] => .ok done.reverse
  | offset, _, [c] => .error (.invalidByte (leadByte c) offset)
  | offset, done, c :: d :: rest =>
    match Text.digitValue c, Text.digitValue d with
    | none, _ => .error (.invalidByte (leadByte c) offset)
    | some _, none => .error (.invalidByte (leadByte d) (offset + 1))
    | some h, some l => decodePairs (offset + 2) (UInt8.ofNat (16 * h + l) :: done) rest

/-- Read a byte string in hexadecimal. -/
def decode (s : List Char) : Except Fault Bytes :=
  if utf8Length s % 2 = 1 then .error .oddLength else decodePairs 0 [] s

/-- A text without one leading 0x. -/
def dropMark : List Char → List Char
  | '0' :: 'x' :: rest => rest
  | s => s

/-- A text without any leading 0x, however often it is repeated. -/
def dropMarks : List Char → List Char
  | '0' :: 'x' :: rest => dropMarks rest
  | s => s

end Signatory.Hex
