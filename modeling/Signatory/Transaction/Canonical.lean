import Signatory.MessagePack
import Signatory.Transaction.Basic

/-!
# Canonical bytes

The byte string that stands for a transaction when it is signed: a MessagePack array of its six
fields, each in its shortest form. Reading takes every form of the fields, by position or by name,
and lets the last two be left out.
-/

namespace Signatory.Transaction

open MessagePack

/-- A value, or nothing. -/
def writeOptional {α : Type} (write : α → Bytes) : Option α → Bytes
  | none => writeNil
  | some a => write a

/-- The canonical bytes of a transaction. -/
def canonical (t : Transaction) : Bytes :=
  arrayHeader 6 ++ writeUnsigned t.nonce.toNat ++
    writeOptional (fun a ↦ writeText (Bytes.ofText a.text)) t.recipient ++
    writeUnsigned t.value.toNat ++ writeUnsigned t.gasLimit.toNat ++ writeBinary t.data ++
    writeOptional (fun c ↦ writeUnsigned c.toNat) t.chainId

/-- The address that an item spells. -/
def address? (i : Item) : Option Address :=
  i.string?.bind fun text ↦ (Address.ofText text).toOption

/-- The transaction that an item spells. -/
def ofItem? (i : Item) : Option Transaction :=
  match i.fields? fieldNames with
  | some [nonce, account, value, gasLimit, data, chainId] => do
    let nonce ← nonce.bind Item.uint64?
    let recipient ← (account.getD .nil).optional? address?
    let value ← value.bind Item.uint64?
    let gasLimit ← gasLimit.bind Item.uint64?
    let data ← (data.getD (.binary [])).bytes?
    let chainId ← (chainId.getD .nil).optional? Item.uint64?
    return ⟨⟨recipient, value, gasLimit, data, chainId⟩, nonce⟩
  | _ => none

/-- Read a transaction at the start of a byte string. -/
def decode? (bs : Bytes) : Option Transaction :=
  (MessagePack.decode? bs).bind ofItem?

end Signatory.Transaction
