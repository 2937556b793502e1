import Mathlib.Data.List.Forall2
import Mathlib.Tactic.Ring
import Signatory.MessagePack

/-!
# Reading what was written

A number, a text or a byte string in its shortest form is read back with the bytes after it
untouched. So no written item is the beginning of another one. A number may also be written in a
wider form than it needs, and so may the length of an array.
-/

namespace Signatory

namespace Bytes

/-- A number that fits is spelled by its big-endian form. -/
theorem toNatBE_bigEndian (width n : Nat) (h : n < 256 ^ width) :
    toNatBE (bigEndian width n) = n := by
  have spelled : ∀ (width n start : Nat),
      (bigEndian width n).foldl (fun m b ↦ m * 256 + b.toNat) start =
        start * 256 ^ width + n % 256 ^ width := by
    intro width
    induction width with
    | zero =>
      intro n start
      simp [bigEndian, Nat.mod_one]
    | succ width ih =>
      intro n start
      have digit : n % 256 ^ (width + 1) =
          n % 256 ^ width + 256 ^ width * (n / 256 ^ width % 256) := by
        rw [Nat.pow_succ, Nat.mod_mul]
      simp only [bigEndian, List.foldl_cons, ih, digit, UInt8.toNat_ofNat']
      ring
  rw [toNatBE, spelled, Nat.zero_mul, Nat.zero_add, Nat.mod_eq_of_lt h]

/-- Numbers that fit are told apart by their big-endian forms. -/
theorem bigEndian_inj {width m n : Nat} (hm : m < 256 ^ width) (hn : n < 256 ^ width)
    (h : bigEndian width m = bigEndian width n) : m = n := by
  rw [← toNatBE_bigEndian width m hm, h, toNatBE_bigEndian width n hn]

/-- The higher bytes of a number stand before the lower ones. -/
theorem bigEndian_add (high low n : Nat) :
    bigEndian (high + low) n = bigEndian high (n / 256 ^ low) ++ bigEndian low n := by
  induction high with
  | zero => rw [Nat.zero_add, bigEndian, List.nil_append]
  | succ high ih =>
    rw [Nat.add_right_comm, bigEndian, ih, bigEndian, Nat.div_div_eq_div_mul, ← Nat.pow_add,
      Nat.add_comm low high, List.cons_append]

/-- Higher bytes than are asked for do not matter. -/
theorem bigEndian_mul_add (width m n : Nat) :
    bigEndian width (m * 256 ^ width + n) = bigEndian width n := by
  have lower : ∀ low ≤ width, bigEndian low (m * 256 ^ width + n) = bigEndian low n := by
    intro low fits
    induction low with
    | zero => rfl
    | succ low ih =>
      have digit : (m * 256 ^ width + n) / 256 ^ low =
          256 * (m * 256 ^ (width - (low + 1))) + n / 256 ^ low := by
        have split : 256 ^ width = 256 ^ low * (256 * 256 ^ (width - (low + 1))) := by
          rw [← Nat.pow_add_one', ← Nat.pow_add]
          congr 1
          omega
        rw [split, Nat.mul_left_comm, Nat.mul_add_div (Nat.pow_pos (by decide)),
          Nat.mul_left_comm]
      rw [bigEndian, bigEndian, ih (by omega), digit]
      congr 1
      rw [← UInt8.toNat_inj, UInt8.toNat_ofNat', UInt8.toNat_ofNat']
      omega
  exact lower width (Nat.le_refl width)

end Bytes

namespace MessagePack

/-- Taking as many bytes as were put in front gives them back. -/
theorem takeBytes?_append (front rest : Bytes) :
    takeBytes? front.length (front ++ rest) = some (front, rest) := by
  simp [takeBytes?]

/-- A big-endian number is taken off the front. -/
theorem takeNat?_bigEndian (width n : Nat) (rest : Bytes) (h : n < 256 ^ width) :
    takeNat? width (Bytes.bigEndian width n ++ rest) = some (n, rest) := by
  have taken := takeBytes?_append (Bytes.bigEndian width n) rest
  rw [Bytes.length_bigEndian] at taken
  rw [takeNat?, taken, Option.map_some]
  dsimp only
  rw [Bytes.toNatBE_bigEndian width n h]

/-- A payload of a known length is read. -/
theorem readPayload_append (wrap : Bytes → Item) (payload rest : Bytes) :
    readPayload wrap payload.length (payload ++ rest) = some (wrap payload, rest) := by
  rw [readPayload, takeBytes?_append, Option.map_some]

/-- A payload that follows its length is read. -/
theorem readSized_append (wrap : Bytes → Item) (width : Nat) (payload rest : Bytes)
    (h : payload.length < 256 ^ width) :
    readSized wrap width 0 (Bytes.bigEndian width payload.length ++ (payload ++ rest)) =
      some (wrap payload, rest) := by
  rw [readSized, takeNat?_bigEndian width _ _ h]
  exact readPayload_append wrap payload rest

/-- The forms of a number that is not negative, by the width of what follows the header; a number in
the narrowest form is its own header. -/
inductive NumberForm
  | bare
  | one
  | two
  | four
  | eight
  deriving DecidableEq, Repr

namespace NumberForm

/-- One more than the greatest number of a form. -/
def bound : NumberForm → Nat
  | .bare => 2 ^ 7
  | .one => 2 ^ 8
  | .two => 2 ^ 16
  | .four => 2 ^ 32
  | .eight => 2 ^ 64

/-- A number in a form. -/
def write : NumberForm → Nat → Bytes
  | .bare, n => [UInt8.ofNat n]
  | .one, n => 0xCC :: Bytes.bigEndian 1 n
  | .two, n => 0xCD :: Bytes.bigEndian 2 n
  | .four, n => 0xCE :: Bytes.bigEndian 4 n
  | .eight, n => 0xCF :: Bytes.bigEndian 8 n

/-- The narrowest form of a number. -/
def narrowest (n : Nat) : NumberForm :=
  if n < 2 ^ 7 then .bare
  else if n < 2 ^ 8 then .one
  else if n < 2 ^ 16 then .two
  else if n < 2 ^ 32 then .four
  else .eight

/-- The shortest form is the narrowest. -/
theorem write_narrowest (n : Nat) : (narrowest n).write n = writeUnsigned n := by
  unfold narrowest writeUnsigned
  repeat (split; next => rfl)
  rfl

/-- A number has a narrowest form. -/
theorem lt_bound_narrowest {n : Nat} (h : n < 2 ^ 64) : n < (narrowest n).bound := by
  unfold narrowest
  repeat (split; next less => exact less)
  exact h

end NumberForm

/-- A number is read back in every form that it fits. -/
theorem read_number (room n : Nat) (form : NumberForm) (rest : Bytes) (h : n < form.bound) :
    read room (form.write n ++ rest) = some (.unsigned n, rest) := by
  cases form with
  | bare =>
    have small : n < 2 ^ 7 := h
    have lead : (UInt8.ofNat n).toNat = n := by
      rw [UInt8.toNat_ofNat']
      exact Nat.mod_eq_of_lt (by omega)
    simp only [NumberForm.write, List.cons_append, List.nil_append, read, lead]
    rw [if_pos (by omega)]
  | one => simp [NumberForm.write, read, takeNat?_bigEndian 1 n rest h]
  | two => simp [NumberForm.write, read, takeNat?_bigEndian 2 n rest h]
  | four => simp [NumberForm.write, read, takeNat?_bigEndian 4 n rest h]
  | eight => simp [NumberForm.write, read, takeNat?_bigEndian 8 n rest h]

/-- A written number is read back. -/
theorem read_writeUnsigned (room n : Nat) (rest : Bytes) (h : n < 2 ^ 64) :
    read room (writeUnsigned n ++ rest) = some (.unsigned n, rest) := by
  rw [← NumberForm.write_narrowest]
  exact read_number room n _ rest (NumberForm.lt_bound_narrowest h)

/-- Nothing is read back. -/
theorem read_writeNil (room : Nat) (rest : Bytes) :
    read room (writeNil ++ rest) = some (.nil, rest) := by
  simp [writeNil, read]

/-- A written text is read back. -/
theorem read_writeText (room : Nat) (bytes rest : Bytes) (h : bytes.length < 2 ^ 32) :
    read room (writeText bytes ++ rest) = some (.text bytes, rest) := by
  unfold writeText
  simp only [List.append_assoc]
  split
  next short =>
    have lead : (UInt8.ofNat (160 + bytes.length)).toNat = 160 + bytes.length := by
      rw [UInt8.toNat_ofNat']
      exact Nat.mod_eq_of_lt (by omega)
    have payload := readPayload_append .text bytes rest
    simp only [List.cons_append, List.nil_append, read, lead]
    rw [if_neg (by omega), if_neg (by omega), if_neg (by omega), if_pos (by omega),
      Nat.add_sub_cancel_left, payload]
  next =>
    split
    next fits =>
      simp [read, readSized_append .text 1 bytes rest (by omega)]
    next =>
      split
      next fits =>
        simp [read, readSized_append .text 2 bytes rest (by omega)]
      next =>
        simp [read, readSized_append .text 4 bytes rest (by omega)]

/-- A written byte string is read back. -/
theorem read_writeBinary (room : Nat) (bytes rest : Bytes) (h : bytes.length < 2 ^ 32) :
    read room (writeBinary bytes ++ rest) = some (.binary bytes, rest) := by
  unfold writeBinary
  simp only [List.append_assoc]
  split
  next fits =>
    simp [read, readSized_append .binary 1 bytes rest (by omega)]
  next =>
    split
    next fits =>
      simp [read, readSized_append .binary 2 bytes rest (by omega)]
    next =>
      simp [read, readSized_append .binary 4 bytes rest (by omega)]

/-- The forms of what stands before the items of an array, by the width of their number. -/
inductive ArrayForm
  | bare
  | two
  | four
  deriving DecidableEq, Repr

namespace ArrayForm

/-- One more than the greatest number of items. -/
def bound : ArrayForm → Nat
  | .bare => 2 ^ 4
  | .two => 2 ^ 16
  | .four => 2 ^ 32

/-- What stands before the items of an array. -/
def header : ArrayForm → Nat → Bytes
  | .bare, count => arrayHeader count
  | .two, count => 0xDC :: Bytes.bigEndian 2 count
  | .four, count => 0xDD :: Bytes.bigEndian 4 count

end ArrayForm

/-- The items that follow the header of an array are read one after the other. -/
theorem read_array (room count : Nat) (form : ArrayForm) (rest : Bytes) (h : count < form.bound) :
    read (room + 1) (form.header count ++ rest) =
      (readMany (read room) count [] rest).map fun (items, rest) ↦ (.array items, rest) := by
  cases form with
  | bare =>
    have short : count < 2 ^ 4 := h
    have lead : (UInt8.ofNat (144 + count)).toNat = 144 + count := by
      rw [UInt8.toNat_ofNat']
      exact Nat.mod_eq_of_lt (by omega)
    simp only [ArrayForm.header, arrayHeader, List.cons_append, List.nil_append, read, lead]
    rw [if_neg (by omega), if_neg (by omega), if_pos (by omega), Nat.add_sub_cancel_left]
  | two => simp [ArrayForm.header, read, takeNat?_bigEndian 2 count rest h]
  | four => simp [ArrayForm.header, read, takeNat?_bigEndian 4 count rest h]

/-- The items that follow the header of a short array are read one after the other. -/
theorem read_arrayHeader (room count : Nat) (rest : Bytes) (h : count < 16) :
    read (room + 1) (arrayHeader count ++ rest) =
      (readMany (read room) count [] rest).map fun (items, rest) ↦ (.array items, rest) :=
  read_array room count .bare rest h

/-- Reading one more of several items. -/
theorem readMany_cons {α : Type} (read : Bytes → Option (α × Bytes)) (count : Nat)
    (done : List α) (a : α) (bs rest : Bytes) (h : read bs = some (a, rest)) :
    readMany read (count + 1) done bs = readMany read count (a :: done) rest := by
  rw [readMany, h]

/-- Items whose bytes are read back one by one are read back one after the other. -/
theorem readMany_flatten {α : Type} {read : Bytes → Option (α × Bytes)} {parts : List Bytes}
    {as : List α}
    (h : List.Forall₂ (fun part a ↦ ∀ rest, read (part ++ rest) = some (a, rest)) parts as)
    (done : List α) (rest : Bytes) :
    readMany read as.length done (parts.flatten ++ rest) = some (done.reverse ++ as, rest) := by
  induction h generalizing done with
  | nil => simp [readMany]
  | cons first others ih =>
    rw [List.flatten_cons, List.append_assoc, List.length_cons,
      readMany_cons _ _ _ _ _ _ (first _), ih, List.reverse_cons, List.append_assoc,
      List.singleton_append]

end MessagePack

end Signatory
