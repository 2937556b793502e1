import Signatory.Bytes
import Signatory.Curve.Coordinate

/-!
# Points of the signature curve

The twisted Edwards curve -x² + y² = 1 + d x² y² over the residues modulo 2^255 - 19, with points in
extended coordinates (x = X/Z, y = Y/Z, x y = T/Z), their sums and multiples, and their 32-byte
form: y in little-endian order with the sign of x in the highest bit.
-/

namespace Signatory.Curve

/-- The constant of the curve, -121665/121666. -/
def curveD : Coordinate :=
  (0 - Coordinate.ofNat 121665) * (Coordinate.ofNat 121666).inverse

/-- Twice the constant of the curve. -/
def curveD2 : Coordinate := curveD + curveD

/-- A point in extended coordinates. -/
structure Point where
  (x y z t : Coordinate)

namespace Point

/-- The neutral point. -/
def zero : Point := ⟨0, 1, 1, 0⟩

/-- The opposite point. -/
def neg (p : Point) : Point := ⟨0 - p.x, p.y, p.z, 0 - p.t⟩

/-- The sum of two points. -/
def add (p q : Point) : Point :=
  let a := (p.y - p.x) * (q.y - q.x)
  let b := (p.y + p.x) * (q.y + q.x)
  let c := p.t * curveD2 * q.t
  let d := (p.z + p.z) * q.z
  let e := b - a
  let f := d - c
  let g := d + c
  let h := b + a
  ⟨e * f, g * h, f * g, e * h⟩

/-- A point added to itself. -/
def double (p : Point) : Point :=
  let a := p.x * p.x
  let b := p.y * p.y
  let c := p.z * p.z
  let h := a + b
  let s := p.x + p.y
  let e := h - s * s
  let g := a - b
  let f := c + c + g
  ⟨e * f, g * h, f * g, e * h⟩

/-- The sum of `m` times `p` and `n` times `q`, for multipliers below 2^256. -/
def combine (m : Nat) (p : Point) (n : Nat) (q : Point) : Point :=
  let both := p.add q
  Nat.fold 256 (fun i _ r ↦
    let r := r.double
    match m.testBit (255 - i), n.testBit (255 - i) with
    | true, true => r.add both
    | true, false => r.add p
    | false, true => r.add q
    | false, false => r) zero

/-- The multiple of a point, for a multiplier below 2^256. -/
def multiple (m : Nat) (p : Point) : Point :=
  Nat.fold 256 (fun i _ r ↦
    if m.testBit (255 - i) then r.double.add p else r.double) zero

/-- The 32-byte form of a point. -/
def compress (p : Point) : Bytes :=
  let zInverse := p.z.inverse
  let x := p.x * zInverse
  let y := p.y * zInverse
  Bytes.littleEndian 32 (y.val + if x.isOdd then 2 ^ 255 else 0)

/-- The point of a 32-byte form, if there is one. The coordinate y is taken modulo the prime, and
either sign is accepted for x = 0. -/
def decompress? (bs : Bytes) : Option Point :=
  let n := Bytes.toNatLE bs
  let y := Coordinate.ofNat (n % 2 ^ 255)
  let y2 := y * y
  (Coordinate.sqrtRatio (y2 - 1) (curveD * y2 + 1)).map fun root ↦
    let x := root.negateIf (n.testBit 255)
    ⟨x, y, 1, x * y⟩

/-- The base point, with y = 4/5 and even x. -/
def base : Point :=
  let x := Coordinate.ofNat
    15112221349535400772501151409588531511454012693041857206046113283949847762202
  let y := Coordinate.ofNat
    46316835694926478169428394003475163141307993866256225615783033603165251855960
  ⟨x, y, 1, x * y⟩

/-- The prime order of the base point. -/
def order : Nat := 2 ^ 252 + 27742317777372353535851937790883648493

end Point

end Signatory.Curve
