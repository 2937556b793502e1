/-!
# Byte strings

Messages, payloads, keys and signatures are finite byte strings, kept as lists so that every format
is a function on their elements. Also here: the fixed-width big-endian form of a number, and the
bytes of a text in UTF-8.
-/

-- Powers of natural numbers are those of the core library, whatever else is in scope.
attribute [instance (2000), default_instance 20000] instPowNat

namespace Signatory

/-- A finite byte string. -/
abbrev Bytes := List UInt8

namespace Bytes

/-- The `width` lowest bytes of `n`, most significant first. -/
def bigEndian : (width n : Nat) → Bytes
  | 0, _ => []
  | width + 1, n => UInt8.ofNat (n / 256 ^ width) :: bigEndian width n

/-- The number that a byte string spells, most significant byte first. -/
def toNatBE (bs : Bytes) : Nat :=
  bs.foldl (fun n b ↦ n * 256 + b.toNat) 0

/-- The `width` lowest bytes of `n`, least significant first. -/
def littleEndian : (width n : Nat) → Bytes
  | 0, _ => []
  | width + 1, n => UInt8.ofNat n :: littleEndian width (n / 256)

/-- The number that a byte string spells, least significant byte first. -/
def toNatLE (bs : Bytes) : Nat :=
  bs.foldr (fun b n ↦ b.toNat + 256 * n) 0

/-- A big-endian form has the asked width. -/
@[simp] theorem length_bigEndian (width n : Nat) : (bigEndian width n).length = width := by
  induction width with
  | zero => rfl
  | succ w ih => simp [bigEndian, ih]

/-- The UTF-8 bytes of a text. -/
def ofText (text : String) : Bytes :=
  text.toUTF8.data.toList

/-- The text that a byte string spells in UTF-8, if it spells one. -/
def toText? (bs : Bytes) : Option String :=
  String.fromUTF8? ⟨bs.toArray⟩

/-- The characters that a byte string spells in UTF-8, with `none` for each byte that belongs to no
character. -/
def toChars (bs : Bytes) : List (Option Char) :=
  next ⟨bs.toArray⟩ bs.length 0 []
where
  /-- The characters from `start` on, behind those done, last first. -/
  next (bytes : ByteArray) : (fuel start : Nat) → List (Option Char) → List (Option Char)
    | 0, _, done => done.reverse
    | fuel + 1, start, done =>
      if bytes.size ≤ start then done.reverse
      else match bytes.utf8DecodeChar? start with
        | some c => next bytes fuel (start + c.utf8Size) (some c :: done)
        | none => next bytes fuel (start + 1) (none :: done)

end Bytes

end Signatory
