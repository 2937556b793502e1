/-!
# Magnitudes with 53 bits

The finite non-negative numbers of the binary format with 53 significant bits, as a mantissa times
a power of two. Every operation is exact arithmetic followed by one rounding to the nearest such
number, a tie going to the even mantissa; a result beyond the greatest one is refused.
-/

namespace Signatory.Decimal

/-- The number `mantissa * 2 ^ exponent`. -/
structure Magnitude where
  mantissa : Nat
  exponent : Int
  deriving DecidableEq, Repr, Inhabited

namespace Magnitude

/-- The least exponent. -/
def leastExponent : Int := -1074

/-- The greatest exponent. -/
def greatestExponent : Int := 971

/-- Zero. -/
def zero : Magnitude := ⟨0, leastExponent⟩

/-- The integer nearest to a quotient; a tie goes to the even one. -/
def nearest (num den : Nat) : Nat :=
  let m := num / den
  let r := num % den
  if 2 * r < den then m else if den < 2 * r then m + 1 else m + m % 2

/-- The quotient of two numbers, the first one taken times `2 ^ (-e)`. -/
def shifted (num den : Nat) (e : Int) : Nat × Nat :=
  (num * 2 ^ (-e).toNat, den * 2 ^ e.toNat)

/-- The exponent at which a quotient has 53 bits before the point, or the least exponent. -/
def fitting (num den : Nat) : Int :=
  let guess : Int := (num.log2 : Int) - den.log2 - 52
  let s := shifted num den guess
  max leastExponent (if s.1 / s.2 < 2 ^ 52 then guess - 1 else guess)

/-- The nearest magnitude to a quotient, if there is one. -/
def ofRatio? (num den : Nat) : Option Magnitude :=
  if num = 0 then some zero
  else
    let e := fitting num den
    let s := shifted num den e
    let m := nearest s.1 s.2
    let x : Magnitude := if m = 2 ^ 53 then ⟨2 ^ 52, e + 1⟩ else ⟨m, e⟩
    if x.exponent ≤ greatestExponent then some x else none

/-- The nearest magnitude to a number below `2 ^ 64`. -/
def ofNat (n : Nat) : Magnitude :=
  (ofRatio? n 1).getD zero

/-- The nearest magnitude to `10 ^ k`, for `k` up to 308. -/
def powerOfTen (k : Nat) : Magnitude :=
  (ofRatio? (10 ^ k) 1).getD zero

/-- The rounded product, if it is not too large. -/
def mul? (x y : Magnitude) : Option Magnitude :=
  let s := shifted (x.mantissa * y.mantissa) 1 (-(x.exponent + y.exponent))
  ofRatio? s.1 s.2

/-- The rounded quotient, if it is not too large. -/
def div? (x y : Magnitude) : Option Magnitude :=
  let s := shifted x.mantissa y.mantissa (-(x.exponent - y.exponent))
  ofRatio? s.1 s.2

/-- The greatest `k` for which `10 ^ k` is tabled. -/
def tabled : Nat := 308

/-- Divide by `10 ^ k`, in steps of the greatest tabled power of ten. -/
def scaleDown (x : Magnitude) (k : Nat) : Option Magnitude :=
  if x.mantissa = 0 then some x
  else if k ≤ tabled then x.div? (powerOfTen k)
  else
    match x.div? (powerOfTen tabled) with
    | none => none
    | some y => y.scaleDown (k - tabled)
  termination_by k
  decreasing_by simp only [tabled] at *; omega

/-- Multiply by `10 ^ k`, if the result is not too large. -/
def scaleUp (x : Magnitude) (k : Nat) : Option Magnitude :=
  if x.mantissa = 0 then some x
  else if k ≤ tabled then x.mul? (powerOfTen k)
  else none

/-- Multiply by a power of ten with any exponent. -/
def scale (x : Magnitude) (e : Int) : Option Magnitude :=
  if 0 ≤ e then x.scaleUp e.toNat else x.scaleDown (-e).toNat

end Magnitude

end Signatory.Decimal
