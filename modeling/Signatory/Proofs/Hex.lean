import Signatory.Address

/-!
# Digits are read back

The two digits of each byte spell it, so a byte string is told by its digits and an address by its
text. Digits and texts are read back: a byte string from its digits, with or without the mark, an
address from its text, and a text from its bytes.
-/

namespace Signatory

namespace Text

/-- A digit has its value. -/
theorem digitValue_digit {n : Nat} (h : n < 16) : digitValue (digit n) = some n := by
  have all : ∀ n : Fin 16, digitValue (digit n.val) = some n.val := by decide
  exact all ⟨n, h⟩

end Text

namespace Hex

/-- Digits of bytes are read back, behind the bytes read before. -/
theorem decodePairs_digits (offset : Nat) (done bs : Bytes) :
    decodePairs offset done (digits bs) = .ok (done.reverse ++ bs) := by
  induction bs generalizing offset done with
  | nil => simp [digits, decodePairs]
  | cons b bs ih =>
    have high : b.toNat / 16 < 16 := by
      have := b.toNat_lt
      omega
    have low : b.toNat % 16 < 16 := Nat.mod_lt _ (by decide)
    have spelled : UInt8.ofNat (16 * (b.toNat / 16) + b.toNat % 16) = b := by
      rw [Nat.div_add_mod, UInt8.ofNat_toNat]
    have split : digits (b :: bs) =
        Text.digit (b.toNat / 16) :: Text.digit (b.toNat % 16) :: digits bs := rfl
    rw [split, decodePairs, Text.digitValue_digit high, Text.digitValue_digit low]
    dsimp only
    rw [spelled, ih, List.reverse_cons, List.append_assoc, List.singleton_append]

/-- A byte string is told by its digits. -/
theorem digits_inj {a b : Bytes} (h : digits a = digits b) : a = b := by
  have read := decodePairs_digits 0 [] a
  rw [h, decodePairs_digits] at read
  exact (Except.ok.inj read).symm

/-- A byte string is told by its marked digits. -/
theorem encodeMarked_inj {a b : Bytes} (h : encodeMarked a = encodeMarked b) : a = b := by
  obtain ⟨-, tail⟩ := List.cons.inj (String.ofList_injective h)
  obtain ⟨-, spelled⟩ := List.cons.inj tail
  exact digits_inj spelled

/-- There are two digits for each byte. -/
theorem length_digits (bs : Bytes) : (digits bs).length = 2 * bs.length := by
  induction bs with
  | nil => rfl
  | cons b bs ih =>
    have split : digits (b :: bs) = pair b ++ digits bs := rfl
    have two : (pair b).length = 2 := rfl
    rw [split, List.length_append, ih, two, List.length_cons]
    omega

/-- The marked digits of bytes are two more than twice as many. -/
theorem length_encodeMarked (bs : Bytes) : (encodeMarked bs).length = 2 * bs.length + 2 := by
  rw [encodeMarked, String.length_ofList, List.length_cons, List.length_cons, length_digits]

/-- Digits are characters of one byte. -/
theorem utf8Length_digits (bs : Bytes) : utf8Length (digits bs) = 2 * bs.length := by
  have digit : ∀ n : Fin 16, (Text.digit n.val).utf8Size = 1 := by decide
  have counted : ∀ (bs : Bytes) (start : Nat),
      (digits bs).foldl (fun n c ↦ n + c.utf8Size) start = start + 2 * bs.length := by
    intro bs
    induction bs with
    | nil => exact fun start ↦ rfl
    | cons b bs ih =>
      intro start
      have small := b.toNat_lt
      have high := digit ⟨b.toNat / 16, by omega⟩
      have low := digit ⟨b.toNat % 16, by omega⟩
      have split : digits (b :: bs) =
          Text.digit (b.toNat / 16) :: Text.digit (b.toNat % 16) :: digits bs := rfl
      rw [split, List.foldl_cons, List.foldl_cons, ih, high, low, List.length_cons]
      omega
  exact (counted bs 0).trans (Nat.zero_add _)

/-- The digits of a byte string are read back. -/
theorem decode_digits (bs : Bytes) : decode (digits bs) = .ok bs := by
  have even : utf8Length (digits bs) % 2 ≠ 1 := by
    rw [utf8Length_digits]
    omega
  rw [decode, if_neg even]
  exact decodePairs_digits 0 [] bs

/-- A byte string is read back from its marked digits. -/
theorem decode_encodeMarked (bs : Bytes) :
    decode (dropMark (encodeMarked bs).toList) = .ok bs := by
  rw [encodeMarked, String.toList_ofList]
  exact decode_digits bs

end Hex

namespace Bytes

/-- A text is told by its bytes. -/
theorem ofText_inj {s t : String} (h : ofText s = ofText t) : s = t := by
  apply String.toByteArray_inj.mp
  apply ByteArray.ext
  exact Array.toList_inj.mp h

/-- A text is read back from its bytes. -/
theorem toText?_ofText (s : String) : toText? (ofText s) = some s := by
  have bytes : (⟨(ofText s).toArray⟩ : ByteArray) = s.toByteArray := rfl
  rw [toText?, bytes, String.fromUTF8?, dif_pos s.isValidUTF8]
  rfl

end Bytes

namespace Address

/-- An address is read back from its text. -/
theorem ofText_text (a : Address) : ofText a.text = .ok a := by
  rw [ofText, text, Hex.decode_encodeMarked]
  dsimp only
  rw [ofBytes?, dif_pos a.length_eq]

/-- An address is told by its text. -/
theorem text_inj {a b : Address} (h : a.text = b.text) : a = b := by
  have bytes := Hex.encodeMarked_inj h
  cases a
  cases b
  congr 1

end Address

end Signatory
