/-!
# Unsigned numbers in text

A number is written as one or more digits of a radix, after at most one plus sign. Reading stops at
the first position where something is wrong; there, a character that is no digit is reported before
a number that has grown too large.
-/

namespace Signatory.Text

/-- Why a text is not an unsigned number of the wanted width. -/
inductive UnsignedFault
  | empty
  | invalidDigit
  | tooLarge
  deriving DecidableEq, Repr

/-- The wording of a fault. -/
def UnsignedFault.message : UnsignedFault → String
  | .empty => "cannot parse integer from empty string"
  | .invalidDigit => "invalid digit found in string"
  | .tooLarge => "number too large to fit in target type"

/-- The digit of a value below sixteen, in lower case. -/
def digit (n : Nat) : Char :=
  if n < 10 then Char.ofNat (48 + n) else Char.ofNat (87 + n)

/-- The value of a digit in radices up to sixteen; letters count in either case. -/
def digitValue (c : Char) : Option Nat :=
  if '0' ≤ c ∧ c ≤ '9' then some (c.toNat - 48)
  else if 'a' ≤ c ∧ c ≤ 'f' then some (c.toNat - 87)
  else if 'A' ≤ c ∧ c ≤ 'F' then some (c.toNat - 55)
  else none

/-- The value of a digit, if it is one in the given radix. -/
def digitIn (radix : Nat) (c : Char) : Option Nat :=
  (digitValue c).filter (· < radix)

/-- Continue a number below `2 ^ bits` with further digits. -/
def readDigits (radix bits : Nat) : (value : Nat) → List Char → Except UnsignedFault Nat
  | value, [] => .ok value
  | value, c :: rest =>
    match digitIn radix c with
    | none => .error .invalidDigit
    | some d =>
      if value * radix + d < 2 ^ bits then readDigits radix bits (value * radix + d) rest
      else .error .tooLarge

/-- Read an unsigned number below `2 ^ bits`. -/
def readUnsigned (radix bits : Nat) : List Char → Except UnsignedFault Nat
  | [] => .error .empty
  | ['+'] => .error .invalidDigit
  | '+' :: digits => readDigits radix bits 0 digits
  | digits => readDigits radix bits 0 digits

/-- Read a decimal number of 64 bits. -/
def readUInt64 (s : List Char) : Except UnsignedFault UInt64 :=
  (readUnsigned 10 64 s).map UInt64.ofNat

/-- The decimal digits of a number. -/
def decimal (n : Nat) : List Char :=
  Nat.toDigits 10 n

end Signatory.Text
