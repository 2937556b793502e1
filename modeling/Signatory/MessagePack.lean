import Signatory.Bytes

/-!
# MessagePack

Self-delimiting binary items. Writing takes the shortest form of every number and length; reading
takes any form, up to a limit of nesting, and gives back the bytes after the item.
-/

namespace Signatory.MessagePack

/-- An item. Texts are kept as bytes, since what is marked as text need not be UTF-8, and floats and
extensions by their bytes. -/
inductive Item
  | nil
  | bool (b : Bool)
  | unsigned (n : Nat)
  | signed (n : Int)
  | float (bytes : Bytes)
  | text (bytes : Bytes)
  | binary (bytes : Bytes)
  | array (items : List Item)
  | map (entries : List (Item × Item))
  | extension (bytes : Bytes)
  deriving Inhabited

/-- A number in its shortest form. -/
def writeUnsigned (n : Nat) : Bytes :=
  if n < 2 ^ 7 then [UInt8.ofNat n]
  else if n < 2 ^ 8 then 0xCC :: Bytes.bigEndian 1 n
  else if n < 2 ^ 16 then 0xCD :: Bytes.bigEndian 2 n
  else if n < 2 ^ 32 then 0xCE :: Bytes.bigEndian 4 n
  else 0xCF :: Bytes.bigEndian 8 n

/-- Nothing. -/
def writeNil : Bytes := [0xC0]

/-- A text, given by its bytes. -/
def writeText (bytes : Bytes) : Bytes :=
  let n := bytes.length
  (if n < 2 ^ 5 then [UInt8.ofNat (0xA0 + n)]
    else if n < 2 ^ 8 then 0xD9 :: Bytes.bigEndian 1 n
    else if n < 2 ^ 16 then 0xDA :: Bytes.bigEndian 2 n
    else 0xDB :: Bytes.bigEndian 4 n) ++ bytes

/-- A byte string. -/
def writeBinary (bytes : Bytes) : Bytes :=
  let n := bytes.length
  (if n < 2 ^ 8 then 0xC4 :: Bytes.bigEndian 1 n
    else if n < 2 ^ 16 then 0xC5 :: Bytes.bigEndian 2 n
    else 0xC6 :: Bytes.bigEndian 4 n) ++ bytes

/-- What stands before the items of a short array. -/
def arrayHeader (n : Nat) : Bytes :=
  [UInt8.ofNat (0x90 + n)]

/-- Take bytes off the front, if there are enough. -/
def takeBytes? (n : Nat) (bs : Bytes) : Option (Bytes × Bytes) :=
  let front := bs.take n
  if front.length = n then some (front, bs.drop n) else none

/-- Take a big-endian number off the front. -/
def takeNat? (width : Nat) (bs : Bytes) : Option (Nat × Bytes) :=
  (takeBytes? width bs).map fun (front, rest) ↦ (Bytes.toNatBE front, rest)

/-- The number in two's complement with the bits of `n`. -/
def twosComplement (width n : Nat) : Int :=
  if n < 2 ^ (8 * width - 1) then n else (n : Int) - 2 ^ (8 * width)

/-- Read items one after the other, in front of those done, last first. -/
def readMany {α : Type} (read : Bytes → Option (α × Bytes)) :
    (count : Nat) → (done : List α) → Bytes → Option (List α × Bytes)
  | 0, done, bs => some (done.reverse, bs)
  | count + 1, done, bs =>
    match read bs with
    | none => none
    | some (a, rest) => readMany read count (a :: done) rest

/-- Read two items. -/
def readPair (read : Bytes → Option (Item × Bytes)) (bs : Bytes) :
    Option ((Item × Item) × Bytes) :=
  match read bs with
  | none => none
  | some (k, rest) => (read rest).map fun (v, rest) ↦ ((k, v), rest)

/-- Read an item whose payload has the given length. -/
def readPayload (wrap : Bytes → Item) (length : Nat) (bs : Bytes) : Option (Item × Bytes) :=
  (takeBytes? length bs).map fun (payload, rest) ↦ (wrap payload, rest)

/-- Read an item whose payload follows its length. -/
def readSized (wrap : Bytes → Item) (width extra : Nat) (bs : Bytes) : Option (Item × Bytes) :=
  (takeNat? width bs).bind fun (n, rest) ↦ readPayload wrap (n + extra) rest

/-- Read an item of at most `room` levels. -/
def read : (room : Nat) → Bytes → Option (Item × Bytes)
  | _, [] => none
  | room, lead :: bs =>
    let b := lead.toNat
    let items (count : Nat) (bs : Bytes) : Option (Item × Bytes) :=
      match room with
      | 0 => none
      | room + 1 => (readMany (read room) count [] bs).map fun (is, rest) ↦ (.array is, rest)
    let entries (count : Nat) (bs : Bytes) : Option (Item × Bytes) :=
      match room with
      | 0 => none
      | room + 1 =>
        (readMany (readPair (read room)) count [] bs).map fun (es, rest) ↦ (.map es, rest)
    let unsigned (width : Nat) := (takeNat? width bs).map fun (n, rest) ↦ (Item.unsigned n, rest)
    let signed (width : Nat) :=
      (takeNat? width bs).map fun (n, rest) ↦ (Item.signed (twosComplement width n), rest)
    if b < 0x80 then some (.unsigned b, bs)
    else if b < 0x90 then entries (b - 0x80) bs
    else if b < 0xA0 then items (b - 0x90) bs
    else if b < 0xC0 then readPayload .text (b - 0xA0) bs
    else if b = 0xC0 then some (.nil, bs)
    else if b = 0xC1 then none
    else if b = 0xC2 then some (.bool false, bs)
    else if b = 0xC3 then some (.bool true, bs)
    else if b = 0xC4 then readSized .binary 1 0 bs
    else if b = 0xC5 then readSized .binary 2 0 bs
    else if b = 0xC6 then readSized .binary 4 0 bs
    else if b = 0xC7 then readSized .extension 1 1 bs
    else if b = 0xC8 then readSized .extension 2 1 bs
    else if b = 0xC9 then readSized .extension 4 1 bs
    else if b = 0xCA then readPayload .float 4 bs
    else if b = 0xCB then readPayload .float 8 bs
    else if b = 0xCC then unsigned 1
    else if b = 0xCD then unsigned 2
    else if b = 0xCE then unsigned 4
    else if b = 0xCF then unsigned 8
    else if b = 0xD0 then signed 1
    else if b = 0xD1 then signed 2
    else if b = 0xD2 then signed 4
    else if b = 0xD3 then signed 8
    else if b = 0xD4 then readPayload .extension 2 bs
    else if b = 0xD5 then readPayload .extension 3 bs
    else if b = 0xD6 then readPayload .extension 5 bs
    else if b = 0xD7 then readPayload .extension 9 bs
    else if b = 0xD8 then readPayload .extension 17 bs
    else if b = 0xD9 then readSized .text 1 0 bs
    else if b = 0xDA then readSized .text 2 0 bs
    else if b = 0xDB then readSized .text 4 0 bs
    else if b = 0xDC then (takeNat? 2 bs).bind fun (n, rest) ↦ items n rest
    else if b = 0xDD then (takeNat? 4 bs).bind fun (n, rest) ↦ items n rest
    else if b = 0xDE then (takeNat? 2 bs).bind fun (n, rest) ↦ entries n rest
    else if b = 0xDF then (takeNat? 4 bs).bind fun (n, rest) ↦ entries n rest
    else some (.signed ((b : Int) - 0x100), bs)

/-- How many levels an item may have. -/
def nestingLimit : Nat := 1023

/-- Read the item at the start of a byte string. -/
def decode? (bs : Bytes) : Option Item :=
  (read nestingLimit bs).map (·.1)

/-- The number that an item spells, if it is not negative. -/
def Item.nat? : Item → Option Nat
  | .unsigned n => some n
  | .signed (.ofNat n) => some n
  | _ => none

/-- The unsigned number of 64 bits that an item spells. -/
def Item.uint64? (i : Item) : Option UInt64 :=
  (i.nat?.filter (· < 2 ^ 64)).map UInt64.ofNat

/-- The byte that an item spells. -/
def Item.byte? (i : Item) : Option UInt8 :=
  (i.nat?.filter (· < 2 ^ 8)).map UInt8.ofNat

/-- The text that an item spells; a byte string may stand for one. -/
def Item.string? : Item → Option String
  | .text bytes | .binary bytes => Bytes.toText? bytes
  | _ => none

/-- Read each item, in front of those done, last first. -/
def collectBytes : List Item → Bytes → Option Bytes
  | [], done => some done.reverse
  | i :: rest, done =>
    match i.byte? with
    | none => none
    | some b => collectBytes rest (b :: done)

/-- The byte string that an item spells: bytes, an array of bytes, or what is marked as text and is
not UTF-8. -/
def Item.bytes? : Item → Option Bytes
  | .binary bytes => some bytes
  | .array items => collectBytes items []
  | .text bytes => if (Bytes.toText? bytes).isSome then none else some bytes
  | _ => none

/-- Which of the named fields an item names, by position or by name; `fields.length` stands for a
field of no record. -/
def Item.field? (fields : List String) : Item → Option Nat
  | .unsigned n => some (min n fields.length)
  | .text bytes | .binary bytes =>
    some (fields.findIdx fun f ↦ Bytes.ofText f = bytes)
  | _ => none

/-- The items of the entries that are fields, by position. -/
def collectFields (fields : List String) :
    List (Item × Item) → List (Nat × Item) → Option (List (Nat × Item))
  | [], found => some found
  | (key, i) :: rest, found =>
    match key.field? fields with
    | none => none
    | some n =>
      if n = fields.length then collectFields fields rest found
      else if found.any (·.1 = n) then none
      else collectFields fields rest ((n, i) :: found)

/-- The items of the fields of a record, which is written as an array of the fields in order or as a
map. -/
def Item.fields? (fields : List String) : Item → Option (List (Option Item))
  | .array items =>
    if items.length ≤ fields.length then
      some (items.map some ++ List.replicate (fields.length - items.length) none)
    else none
  | .map entries =>
    (collectFields fields entries []).map fun found ↦
      (List.range fields.length).map fun n ↦ (found.find? (·.1 = n)).map (·.2)
  | _ => none

/-- A field that may be nothing. -/
def Item.optional? {α : Type} (read : Item → Option α) : Item → Option (Option α)
  | .nil => some none
  | i => (read i).map some

end Signatory.MessagePack
