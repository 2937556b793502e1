import Signatory.Bytes

/-!
# The SHA-2 family

One construction over two word sizes: a message is padded to whole blocks, each block is expanded
into a schedule of words, and the rounds mix the schedule into eight chaining words. A `Variant`
holds what differs between the members of the family.
-/

namespace Signatory.Hash

/-- The eight chaining words. -/
structure Chain (W : Type) where
  (a b c d e f g h : W)

/-- What a member of the family is made of, over words of type `W`. -/
structure Variant (W : Type) where
  /-- Bytes in a word. -/
  wordSize : Nat
  /-- The word of a number, modulo the word size. -/
  ofNat : Nat → W
  toNat : W → Nat
  add : W → W → W
  /-- The two mixing functions of the chaining words `a` and `e`. -/
  (mixA mixE : W → W)
  /-- The two mixing functions of the schedule. -/
  (spreadNear spreadFar : W → W)
  /-- Bits of the second word where the first is set, of the third where it is not. -/
  choose : W → W → W → W
  /-- Bits that at least two of the words have. -/
  majority : W → W → W → W
  start : Chain W
  /-- One constant for each round. -/
  constants : Array W

namespace Variant

variable {W : Type}

/-- Bytes in a block. -/
def blockSize (v : Variant W) : Nat := 16 * v.wordSize

/-- The big-endian word that starts at a byte of a block. -/
@[inline] def wordAt (v : Variant W) (block : Array UInt8) (start : Nat) : W :=
  v.ofNat (Nat.fold v.wordSize (fun i _ n ↦ n * 256 + (block.getD (start + i) 0).toNat) 0)

/-- The words of a block. -/
@[specialize] def blockWords (v : Variant W) (block : Array UInt8) : Array W :=
  (Array.range 16).map fun i ↦ v.wordAt block (i * v.wordSize)

/-- Append one more word to a schedule. -/
@[inline] def extend (v : Variant W) (w : Array W) : Array W :=
  let n := w.size
  let back (k : Nat) : W := w.getD (n - k) (v.ofNat 0)
  w.push (v.add (v.add (v.spreadFar (back 2)) (back 7)) (v.add (v.spreadNear (back 15)) (back 16)))

/-- The schedule of a block: its words, extended to one word for each round. -/
@[specialize] def schedule (v : Variant W) (block : Array UInt8) : Array W :=
  Nat.fold (v.constants.size - 16) (fun _ _ w ↦ v.extend w) (v.blockWords block)

/-- One round. -/
@[inline] def round (v : Variant W) (s : Chain W) (k w : W) : Chain W :=
  let t := v.add (v.add (v.add s.h (v.mixE s.e)) (v.add (v.choose s.e s.f s.g) k)) w
  let u := v.add (v.mixA s.a) (v.majority s.a s.b s.c)
  ⟨v.add t u, s.a, s.b, s.c, v.add s.d t, s.e, s.f, s.g⟩

/-- Mix a block into the chaining words. -/
@[specialize] def compress (v : Variant W) (s : Chain W) (block : Array UInt8) : Chain W :=
  let w := v.schedule block
  let t := Nat.fold v.constants.size
    (fun i _ t ↦ v.round t (v.constants.getD i (v.ofNat 0)) (w.getD i (v.ofNat 0))) s
  ⟨v.add s.a t.a, v.add s.b t.b, v.add s.c t.c, v.add s.d t.d,
    v.add s.e t.e, v.add s.f t.f, v.add s.g t.g, v.add s.h t.h⟩

/-- Chaining words together with the bytes of a block that is not full yet. -/
structure Progress (W : Type) where
  chain : Chain W
  pending : Array UInt8

/-- Take in one more byte. -/
@[specialize] def absorb (v : Variant W) (p : Progress W) (b : UInt8) : Progress W :=
  let block := p.pending.push b
  if block.size = v.blockSize then ⟨v.compress p.chain block, #[]⟩ else ⟨p.chain, block⟩

/-- What follows a message of `length` bytes: a one bit, zeros up to the last two words of a block,
and the length in bits in those two words. -/
def padding (v : Variant W) (length : Nat) : Bytes :=
  let tail := 2 * v.wordSize
  let zeros := (2 * v.blockSize - tail - 1 - length % v.blockSize) % v.blockSize
  0x80 :: List.replicate zeros 0 ++ Bytes.bigEndian tail (8 * length)

/-- The bytes of a word. -/
def wordBytes (v : Variant W) (w : W) : Bytes :=
  Bytes.bigEndian v.wordSize (v.toNat w)

/-- The digest of a message. -/
@[specialize] def digest (v : Variant W) (message : Bytes) : Bytes :=
  let s := ((v.padding message.length).foldl v.absorb
    (message.foldl v.absorb ⟨v.start, #[]⟩)).chain
  [s.a, s.b, s.c, s.d, s.e, s.f, s.g, s.h].flatMap v.wordBytes

end Variant

end Signatory.Hash
