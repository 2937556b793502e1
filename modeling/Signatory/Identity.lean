import Signatory.Ledger.Endpoint
import Signatory.Transaction.Signed

/-!
# Identities

One key's signing state: the key, the algorithm, the address, the next sequence number, and the
ledger that it transacts on. Sequence numbers only ever grow; the greatest one is never used.
-/

namespace Signatory

/-- The signing state of a key. -/
structure Identity where
  key : SigningKey
  algorithm : Algorithm
  address : Address
  sequenceNumber : UInt64
  ledger : Ledger.Place
  endpoint : String
  address_eq : address = Address.ofPublicKey key.publicKey

namespace Identity

/-- The identity of a private key. -/
def make (secret : PrivateKey) (algorithm : Algorithm) (ledger : Ledger.Place) (endpoint : String)
    (sequenceNumber : UInt64) : Identity :=
  let key := SigningKey.ofPrivateKey secret
  ⟨key, algorithm, Address.ofPublicKey key.publicKey, sequenceNumber, ledger, endpoint, rfl⟩

/-- The greatest sequence number. -/
def lastNumber : UInt64 := UInt64.ofNat (2 ^ 64 - 1)

/-- Refuse an identity whose sequence numbers are used up. -/
def checkAvailable (i : Identity) : Except Failure Unit :=
  if i.sequenceNumber = lastNumber then .error (.signing (.exhausted i.sequenceNumber))
  else .ok ()

/-- Take the current sequence number and go on to the next. -/
def takeNumber (i : Identity) : Except Failure (UInt64 × Identity) :=
  match i.checkAvailable with
  | .error e => .error e
  | .ok () => .ok (i.sequenceNumber, { i with sequenceNumber := i.sequenceNumber + 1 })

/-- Go on to a sequence number, if it is greater than the current one. -/
def advanceTo (i : Identity) (n : UInt64) : Bool × Identity :=
  if i.sequenceNumber < n then (true, { i with sequenceNumber := n }) else (false, i)

/-- Sign a transaction; the sequence number is left alone. -/
def sign (i : Identity) (t : Transaction) : Except Failure SignedTransaction :=
  match t.validate with
  | .error e => .error e
  | .ok () =>
    match i.algorithm.checkChain t.chainId with
    | .error e => .error e
    | .ok () => .ok (SignedTransaction.make i.key i.address i.algorithm t)

/-- Sign a draft with the current sequence number, which is used up if that succeeds. -/
def signNext (i : Identity) (d : Draft) : Except Failure (SignedTransaction × Identity) :=
  match i.checkAvailable with
  | .error e => .error e
  | .ok () =>
    match i.sign (d.withNonce i.sequenceNumber) with
    | .error e => .error e
    | .ok signed => i.takeNumber.map fun (_, i) ↦ (signed, i)

/-- What is shown of an identity in summaries. -/
def summary (i : Identity) : String :=
  "SigningIdentity \x7b address: " ++ i.address.summary ++ ", algorithm: " ++
    i.algorithm.summary ++ s!", sequence_number: {i.sequenceNumber}, endpoint: " ++
    Text.quoted i.endpoint ++ ", .. \x7d"

end Identity

end Signatory
