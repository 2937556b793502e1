/-!
# Coordinates modulo 2^255 - 19

The field over which the signature curve is defined: residues modulo the prime 2^255 - 19, with
powers, inverses and square roots of quotients.
-/

namespace Signatory.Curve

/-- The prime 2^255 - 19. -/
def prime : Nat := 2 ^ 255 - 19

instance : @NeZero Nat (@Zero.ofOfNat0 Nat (instOfNatNat 0)) prime := ⟨by decide⟩

/-- A residue modulo `prime`. -/
abbrev Coordinate := Fin prime

namespace Coordinate

/-- The residue of a number. -/
def ofNat (n : Nat) : Coordinate := Fin.ofNat prime n

/-- The power `x ^ n` for an exponent below 2^256. -/
def power (x : Coordinate) (n : Nat) : Coordinate :=
  Nat.fold 256 (fun i _ r ↦ if n.testBit (255 - i) then r * r * x else r * r) 1

/-- The inverse of a residue; zero for zero. -/
def inverse (x : Coordinate) : Coordinate := x.power (prime - 2)

/-- The sign of a residue: whether it is odd. -/
def isOdd (x : Coordinate) : Bool := x.val % 2 = 1

/-- The negated residue if `flip` is set. -/
def negateIf (flip : Bool) (x : Coordinate) : Coordinate :=
  if flip then 0 - x else x

/-- A square root of minus one. -/
def rootOfMinusOne : Coordinate := (2 : Coordinate).power ((prime - 1) / 4)

/-- The even square root of `u / v`, if the quotient is a square. -/
def sqrtRatio (u v : Coordinate) : Option Coordinate :=
  let v3 := v * v * v
  let r := u * v3 * (u * v3 * v3 * v).power ((prime - 5) / 8)
  let check := v * r * r
  if check = u then some (r.negateIf r.isOdd)
  else if check = 0 - u then
    let s := r * rootOfMinusOne
    some (s.negateIf s.isOdd)
  else none

end Coordinate

end Signatory.Curve
