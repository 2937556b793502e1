import Signatory.Transaction.Basic

/-!
# Transactions in JSON

Drafts and transactions are records; addresses and data are texts in hexadecimal. The data and the
chain id may be left out, and the recipient may be null.
-/

namespace Signatory

/-- The JSON form of a byte string. -/
def Bytes.toJson (bs : Bytes) : Json.Value :=
  .string (Hex.encodeMarked bs)

/-- Read the JSON form of a byte string; the 0x may be missing. -/
def Bytes.ofJson? (t : Json.Tree) : Option Bytes :=
  t.text?.bind fun text ↦ (Hex.decode (Hex.dropMark text.toList)).toOption

namespace Draft

open Json

/-- The members of the JSON form of a draft. -/
def members (d : Draft) : List (String × Value) :=
  [("to", .optional Address.toJson d.recipient),
    ("value", .nat d.value.toNat),
    ("gas_limit", .nat d.gasLimit.toNat),
    ("data", d.data.toJson),
    ("chain_id", .optional (fun c ↦ .nat c.toNat) d.chainId)]

/-- The JSON form of a draft. -/
def toJson (d : Draft) : Value :=
  .record d.members

/-- Read a draft from the trees of its fields. -/
def ofFields? : List (Option Tree) → Option Draft
  | [account, value, gasLimit, data, chainId] => do
    let recipient ← Tree.optional? Address.ofJson? account
    let value ← value.bind Tree.uint64?
    let gasLimit ← gasLimit.bind Tree.uint64?
    let data ← Tree.orElse? [] Bytes.ofJson? data
    let chainId ← Tree.optional? Tree.uint64? chainId
    return ⟨recipient, value, gasLimit, data, chainId⟩
  | _ => none

/-- Read the JSON form of a draft. -/
def ofJson? (t : Tree) : Option Draft :=
  (t.fields? fieldNames).bind ofFields?

end Draft

namespace Transaction

open Json

/-- The JSON form of a transaction. -/
def toJson (t : Transaction) : Value :=
  .record (("nonce", .nat t.nonce.toNat) :: t.members)

/-- Read the JSON form of a transaction. -/
def ofJson? (t : Tree) : Option Transaction :=
  match t.fields? fieldNames with
  | some (nonce :: fields) => do
    let nonce ← nonce.bind Tree.uint64?
    let draft ← Draft.ofFields? fields
    return ⟨draft, nonce⟩
  | _ => none

end Transaction

end Signatory
