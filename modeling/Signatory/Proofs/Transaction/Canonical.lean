import Signatory.Proofs.Hex
import Signatory.Proofs.MessagePack
import Signatory.Proofs.Transaction.Acceptable
import Signatory.Transaction.Canonical

/-!
# Canonical bytes are unambiguous

The canonical bytes of a transaction are read back as an array of its six fields, whatever comes
after them. So they tell the transaction, and where they end.
-/

namespace Signatory

namespace Bytes

/-- The bytes of a text are those of its characters. -/
theorem ofText_ofList (cs : List Char) :
    ofText (String.ofList cs) = cs.flatMap String.utf8EncodeChar := by
  simp [ofText, List.utf8Encode]

end Bytes

/-- The text of an address has 42 bytes. -/
theorem Address.length_ofText_text (a : Address) : (Bytes.ofText a.text).length = 42 := by
  have digit : ∀ n : Fin 16, (String.utf8EncodeChar (Text.digit n.val)).length = 1 := by decide
  have digits : ∀ bs : Bytes,
      ((Hex.digits bs).flatMap String.utf8EncodeChar).length = 2 * bs.length := by
    intro bs
    induction bs with
    | nil => rfl
    | cons b bs ih =>
      have small := b.toNat_lt
      have high := digit ⟨b.toNat / 16, by omega⟩
      have low := digit ⟨b.toNat % 16, by omega⟩
      have split : (Hex.digits (b :: bs)).flatMap String.utf8EncodeChar =
          String.utf8EncodeChar (Text.digit (b.toNat / 16)) ++
            (String.utf8EncodeChar (Text.digit (b.toNat % 16)) ++
              (Hex.digits bs).flatMap String.utf8EncodeChar) := rfl
      rw [split, List.length_append, List.length_append, ih, high, low, List.length_cons]
      omega
  rw [Address.text, Hex.encodeMarked, Bytes.ofText_ofList, List.flatMap_cons, List.flatMap_cons,
    List.length_append, List.length_append, digits, a.length_eq]
  rfl

namespace Transaction

open MessagePack

/-- The item of an account, or of none. -/
def accountItem : Option Address → Item
  | none => .nil
  | some a => .text (Bytes.ofText a.text)

/-- The item of a chain, or of none. -/
def chainItem : Option UInt64 → Item
  | none => .nil
  | some chain => .unsigned chain.toNat

/-- The items of the fields of a transaction. -/
def items (t : Transaction) : List Item :=
  [.unsigned t.nonce.toNat, accountItem t.recipient, .unsigned t.value.toNat,
    .unsigned t.gasLimit.toNat, .binary t.data, chainItem t.chainId]

/-- A written account is read back. -/
theorem read_account (room : Nat) (account : Option Address) (rest : Bytes) :
    read room
        (writeOptional (fun a : Address ↦ writeText (Bytes.ofText a.text)) account ++ rest) =
      some (accountItem account, rest) := by
  cases account with
  | none => exact read_writeNil room rest
  | some a =>
    exact read_writeText room _ rest (by rw [a.length_ofText_text]; decide)

/-- A written chain is read back. -/
theorem read_chain (room : Nat) (chain : Option UInt64) (rest : Bytes) :
    read room (writeOptional (fun c : UInt64 ↦ writeUnsigned c.toNat) chain ++ rest) =
      some (chainItem chain, rest) := by
  cases chain with
  | none => exact read_writeNil room rest
  | some chain => exact read_writeUnsigned room _ rest chain.toNat_lt

/-- The canonical bytes are read back as the items of the fields, with what comes after them. -/
theorem read_canonical (room : Nat) (t : Transaction) (rest : Bytes)
    (h : t.data.length < 2 ^ 32) :
    read (room + 1) (t.canonical ++ rest) = some (.array t.items, rest) := by
  simp only [canonical, List.append_assoc]
  rw [read_arrayHeader room 6 _ (by decide),
    readMany_cons _ _ _ _ _ _ (read_writeUnsigned room _ _ t.nonce.toNat_lt),
    readMany_cons _ _ _ _ _ _ (read_account room _ _),
    readMany_cons _ _ _ _ _ _ (read_writeUnsigned room _ _ t.value.toNat_lt),
    readMany_cons _ _ _ _ _ _ (read_writeUnsigned room _ _ t.gasLimit.toNat_lt),
    readMany_cons _ _ _ _ _ _ (read_writeBinary room _ _ h),
    readMany_cons _ _ _ _ _ _ (read_chain room _ _)]
  rfl

/-- An account is told by its item. -/
theorem accountItem_inj {a b : Option Address} (h : accountItem a = accountItem b) : a = b := by
  cases a with
  | none =>
    cases b with
    | none => rfl
    | some b => cases h
  | some a =>
    cases b with
    | none => cases h
    | some b => rw [Address.text_inj (Bytes.ofText_inj (Item.text.inj h))]

/-- A chain is told by its item. -/
theorem chainItem_inj {a b : Option UInt64} (h : chainItem a = chainItem b) : a = b := by
  cases a with
  | none =>
    cases b with
    | none => rfl
    | some b => cases h
  | some a =>
    cases b with
    | none => cases h
    | some b => rw [UInt64.toNat_inj.mp (Item.unsigned.inj h)]

/-- A transaction is told by the items of its fields. -/
theorem items_inj {t u : Transaction} (h : t.items = u.items) : t = u := by
  obtain ⟨⟨recipient, value, gasLimit, data, chainId⟩, nonce⟩ := t
  obtain ⟨⟨recipient', value', gasLimit', data', chainId'⟩, nonce'⟩ := u
  simp only [items, List.cons.injEq, Item.unsigned.injEq, Item.binary.injEq, UInt64.toNat_inj,
    and_true] at h
  obtain ⟨rfl, account, rfl, rfl, rfl, chain⟩ := h
  obtain rfl := accountItem_inj account
  obtain rfl := chainItem_inj chain
  rfl

/-- The canonical bytes tell the transaction and where they end. -/
theorem canonical_append_inj {t u : Transaction} {p q : Bytes} (ht : t.data.length < 2 ^ 32)
    (hu : u.data.length < 2 ^ 32) (h : t.canonical ++ p = u.canonical ++ q) : t = u ∧ p = q := by
  have front := read_canonical 0 t p ht
  rw [h, read_canonical 0 u q hu] at front
  obtain ⟨items, rest⟩ := Prod.mk.inj (Option.some.inj front)
  exact ⟨(items_inj (Item.array.inj items)).symm, rest.symm⟩

/-- The canonical bytes tell the transaction. -/
theorem canonical_inj {t u : Transaction} (ht : t.data.length < 2 ^ 32)
    (hu : u.data.length < 2 ^ 32) (h : t.canonical = u.canonical) : t = u := by
  have both : t.canonical ++ [] = u.canonical ++ [] := by rw [h]
  exact (canonical_append_inj ht hu both).1

end Transaction

end Signatory
