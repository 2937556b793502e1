import Signatory.Decimal.Shortest
import Signatory.Text.Unsigned

/-!
# Numbers in JSON

A numeral is an integer if it is written without point and exponent and fits 64 bits, signed or
unsigned; every other numeral stands for a float. A float is read as the leading digits that fit 64
bits, rounded, and then scaled by a rounded power of ten; a numeral too large for that is no number.
A float is written with the fewest digits that read back, positionally unless it is very large or
very small, and always so that it can be told from an integer.
-/

namespace Signatory.Json

open Decimal (Magnitude Scaled)

/-- A number. -/
inductive Number
  | int (n : Int)
  | float (negative : Bool) (x : Magnitude)
  deriving DecidableEq, Repr, Inhabited

namespace Number

/-- A numeral: its sign, the digits before the point, those after it, and the exponent with its
sign. -/
structure Numeral where
  negative : Bool
  whole : List Char
  fraction : Option (List Char)
  exponent : Option (Bool × List Char)
  deriving DecidableEq, Repr

/-- Split off the sign of an exponent. -/
def splitSign : List Char → Bool × List Char
  | '-' :: digits => (true, digits)
  | '+' :: digits => (false, digits)
  | digits => (false, digits)

/-- Split off the exponent of a numeral. -/
def splitExponent : List Char → Option (Bool × List Char)
  | 'e' :: rest => some (splitSign rest)
  | 'E' :: rest => some (splitSign rest)
  | _ => none

/-- Divide the text of a numeral into its parts. -/
def Numeral.ofText (text : List Char) : Numeral :=
  let (negative, digits) := match text with
    | '-' :: rest => (true, rest)
    | rest => (false, rest)
  let whole := digits.takeWhile Char.isDigit
  match digits.dropWhile Char.isDigit with
  | '.' :: rest =>
    ⟨negative, whole, some (rest.takeWhile Char.isDigit),
      splitExponent (rest.dropWhile Char.isDigit)⟩
  | rest => ⟨negative, whole, none, splitExponent rest⟩

/-- The value of a digit. -/
def ofDigit (c : Char) : Nat := c.toNat - 48

/-- One more than the greatest significand. -/
def significandBound : Nat := 2 ^ 64

/-- Take digits into a significand as long as it fits, and count those that are left. -/
def gather : (significand : Nat) → List Char → Nat × Nat
  | s, [] => (s, 0)
  | s, c :: rest =>
    if s * 10 + ofDigit c < significandBound then gather (s * 10 + ofDigit c) rest
    else (s, rest.length + 1)

/-- The number that digits spell. -/
def value (digits : List Char) : Nat :=
  digits.foldl (fun n c ↦ n * 10 + ofDigit c) 0

/-- The greatest exponent that is taken as written. -/
def exponentLimit : Int := 2 ^ 31 - 1

/-- The magnitude that a significand and an exponent spell, `e` being the exponent that the
position of the point gives. -/
def magnitude? (significand : Nat) (e : Int) : Option (Bool × List Char) → Option Magnitude
  | none => (Magnitude.ofNat significand).scale e
  | some (negative, digits) =>
    let n : Int := value digits
    if n ≤ exponentLimit then
      (Magnitude.ofNat significand).scale (if negative then e - n else e + n)
    else if significand = 0 ∨ negative then some Magnitude.zero
    else none

/-- The float that a numeral spells. -/
def Numeral.magnitude? (t : Numeral) : Option Magnitude :=
  let (s, unread) := gather 0 t.whole
  match t.fraction with
  | none => Number.magnitude? s unread t.exponent
  | some digits =>
    let (s, ignored) := gather s digits
    Number.magnitude? s ((unread : Int) - (digits.length - ignored : Nat)) t.exponent

/-- Whether a numeral is written as an integer. -/
def Numeral.isWhole (t : Numeral) : Bool :=
  t.fraction.isNone && t.exponent.isNone

/-- The integer that a numeral stands for; zero has no sign. -/
def Numeral.int? (t : Numeral) : Option Int :=
  let n := value t.whole
  if t.isWhole then
    if t.negative then (if 0 < n ∧ n ≤ 2 ^ 63 then some (-n) else none)
    else if n < 2 ^ 64 then some n
    else none
  else none

/-- The number that a numeral stands for. -/
def Numeral.number? (t : Numeral) : Option Number :=
  match t.int? with
  | some n => some (.int n)
  | none => t.magnitude?.map (.float t.negative)

/-- The least and the greatest exponent of the first digit at which a float is written
positionally. -/
def positional : Int × Int := (-5, 15)

/-- Digits with a point after the first `k` of them; there is a digit on both sides. -/
def pointed (digits : List Char) (k : Nat) : List Char :=
  let tail := digits.drop k
  (digits ++ List.replicate (k - digits.length) '0').take k ++
    '.' :: (if tail.isEmpty then ['0'] else tail)

/-- A decimal in the layout of floats. -/
def layout (d : Scaled) : List Char :=
  let digits := (Nat.toDigits 10 d.coefficient).reverse.dropWhile (· = '0') |>.reverse
  let first : Int := d.exponent + (Nat.toDigits 10 d.coefficient).length - 1
  if 0 ≤ first ∧ first ≤ positional.2 then pointed digits (first.toNat + 1)
  else if positional.1 ≤ first ∧ first < 0 then
    '0' :: '.' :: (List.replicate ((-first).toNat - 1) '0' ++ digits)
  else
    let mantissa := match digits with
      | c :: d :: rest => c :: '.' :: d :: rest
      | short => short
    mantissa ++ 'e' :: (if first < 0 then '-' else '+') :: Nat.toDigits 10 first.natAbs

/-- The text of a number. -/
def text : Number → List Char
  | .int n => if n < 0 then '-' :: Text.decimal n.natAbs else Text.decimal n.natAbs
  | .float negative x =>
    let digits := if x.mantissa = 0 then ['0', '.', '0'] else layout (Decimal.shortest x)
    if negative then '-' :: digits else digits

end Number

end Signatory.Json
