import Signatory.Algorithm

/-!
# Transactions

A draft is what a caller asks to have signed; a transaction is a draft with the sequence number that
its signer gives it. A transaction is acceptable if it has gas, if its data is not too long, and if
it has a recipient or data.
-/

namespace Signatory

/-- What a caller asks to have signed. -/
structure Draft where
  /-- The account that is paid or called; a contract is created if there is none. -/
  recipient : Option Address
  value : UInt64
  gasLimit : UInt64
  data : Bytes
  /-- The chain that the transaction is meant for, if for one in particular. -/
  chainId : Option UInt64
  deriving DecidableEq

/-- A draft with its place in the sequence of its signer's transactions. -/
structure Transaction extends Draft where
  nonce : UInt64
  deriving DecidableEq

namespace Draft

/-- The names of the fields of a draft, in order. -/
def fieldNames : List String :=
  ["to", "value", "gas_limit", "data", "chain_id"]

/-- A payment with the gas that payments need. -/
def transfer (recipient : Address) (value : UInt64) : Draft :=
  ⟨some recipient, value, 21000, [], none⟩

/-- The transaction with a sequence number. -/
def withNonce (d : Draft) (nonce : UInt64) : Transaction :=
  ⟨d, nonce⟩

end Draft

namespace Transaction

/-- The names of the fields of a transaction, in order. -/
def fieldNames : List String :=
  "nonce" :: Draft.fieldNames

/-- The greatest number of bytes of data. -/
def dataLimit : Nat := 128 * 1024

/-- Refuse a transaction that no ledger would take. -/
def validate (t : Transaction) : Except Failure Unit :=
  if t.gasLimit = 0 then .error (.signing .noGas)
  else if dataLimit < t.data.length then
    .error (.signing (.dataTooLong t.data.length dataLimit))
  else if t.recipient = none ∧ t.data = [] then .error (.signing .emptyCreation)
  else .ok ()

end Transaction

end Signatory
