import Signatory.Decimal.Binary64

/-!
# Shortest decimals

The decimal number with the fewest digits that rounds to a given magnitude; of several with that
many digits, the nearest. The grids of 1, 2, … 17 digits are tried in turn, and on each grid only
the two neighbours of the magnitude.
-/

namespace Signatory.Decimal

/-- The number `coefficient * 10 ^ exponent`. -/
structure Scaled where
  coefficient : Nat
  exponent : Int
  deriving DecidableEq, Repr

/-- The numbers that round to a magnitude: those between `low` and `high`, over the denominator
`den`, the ends included if `closed`. -/
structure Interval where
  low : Nat
  value : Nat
  high : Nat
  den : Nat
  closed : Bool

/-- The numbers that round to a magnitude. Just above a power of two, the neighbour below is half
as far away as the one above. -/
def Interval.of (x : Magnitude) : Interval :=
  let narrow := x.mantissa = 2 ^ 52 ∧ Magnitude.leastExponent < x.exponent
  let s := Magnitude.shifted 1 4 (-x.exponent)
  ⟨(4 * x.mantissa - if narrow then 1 else 2) * s.1, 4 * x.mantissa * s.1,
    (4 * x.mantissa + 2) * s.1, s.2, x.mantissa % 2 = 0⟩

/-- Whether a multiple of `10 ^ e` lies in an interval. -/
def Interval.has (i : Interval) (c : Nat) (e : Int) : Bool :=
  let n := c * 10 ^ e.toNat * i.den
  let scale := 10 ^ (-e).toNat
  if i.closed then i.low * scale ≤ n ∧ n ≤ i.high * scale
  else i.low * scale < n ∧ n < i.high * scale

/-- The greatest `k` with `10 ^ k ≤ num / den`, searched upward from `-least`. -/
def exponentFrom (num den : Nat) : (fuel least : Nat) → Int
  | 0, least => -least
  | fuel + 1, least =>
    if den ≤ num * 10 ^ least then
      (Nat.toDigits 10 (num * 10 ^ least / den)).length - 1 - (least : Int)
    else exponentFrom num den fuel (least + 1)

/-- The exponent of the first digit of a positive quotient. -/
def firstExponent (num den : Nat) : Int :=
  exponentFrom num den 400 ((den.log2 - num.log2) * 3 / 10)

/-- The neighbour of a magnitude on the grid of multiples of `10 ^ e` that rounds to it: the nearer
one, if both do. -/
def Interval.onGrid (i : Interval) (e : Int) : Option Scaled :=
  let num := i.value * 10 ^ (-e).toNat
  let den := i.den * 10 ^ e.toNat
  let c := num / den
  match i.has c e, i.has (c + 1) e with
  | false, false => none
  | true, false => some ⟨c, e⟩
  | false, true => some ⟨c + 1, e⟩
  | true, true =>
    let r := num % den
    some (if 2 * r < den ∨ (2 * r = den ∧ c % 2 = 0) then ⟨c, e⟩ else ⟨c + 1, e⟩)

/-- The first grid with at least `digits` digits that has a number which rounds to the magnitude. -/
def Interval.search (i : Interval) (first : Int) : (fuel digits : Nat) → Scaled
  | 0, _ => ⟨i.value / i.den, 0⟩
  | fuel + 1, digits =>
    match i.onGrid (first - digits + 1) with
    | some s => s
    | none => i.search first fuel (digits + 1)

/-- The shortest decimal that rounds to a positive magnitude. -/
def shortest (x : Magnitude) : Scaled :=
  let i := Interval.of x
  i.search (firstExponent i.value i.den) 18 1

end Signatory.Decimal
