import Signatory.Operation
import Signatory.Sync

/-!
# Requests and responses

What a worker is asked and what it answers. Each response has a JSON form in which its type is named
beside its content.
-/

namespace Signatory.Service

/-- What a worker needs in order to take on an identity. -/
structure Credentials where
  endpoint : String
  privateKey : PrivateKey
  algorithm : Algorithm := .plain
  sequenceNumber : UInt64 := 0

/-- What can be asked without changing anything. -/
inductive Query
  | address
  | nonce
  | status
  deriving DecidableEq, Repr

/-- What a worker is asked to do. -/
inductive Request
  | generate (c : Credentials)
  | sign (d : Draft)
  | syncNonce
  | query (q : Query)

/-- The operation that a request asks for. -/
def Request.operation : Request → Operation
  | .generate _ => .generate
  | .sign _ => .sign
  | .syncNonce => .syncNonce
  | .query .address => .queryAddress
  | .query .nonce => .queryNonce
  | .query .status => .queryStatus

/-- Whether a request may bring a worker into existence. -/
def Request.createsWorker (r : Request) : Bool :=
  r.operation.createsWorker

/-- What is told about an identity. -/
structure Status where
  key : String
  address : Address
  sequenceNumber : UInt64
  algorithm : Algorithm
  endpoint : String

/-- What a worker answers. -/
inductive Response
  | generated (a : Address)
  | signed (s : SignedTransaction)
  | synced (o : Outcome)
  | address (a : Address)
  | nonce (n : UInt64)
  | status (s : Status)

open Json

/-- The members of the JSON form of a status. -/
def Status.members (s : Status) : List (String × Value) :=
  [("key", .string s.key), ("address", s.address.toJson),
    ("sequence_number", .nat s.sequenceNumber.toNat), ("algorithm", s.algorithm.toJson),
    ("endpoint", .string s.endpoint), ("lifecycle", .string "active")]

namespace Response

/-- The type of a response. -/
def type : Response → String
  | .generated _ => "generated"
  | .signed _ => "signed"
  | .synced _ => "synced"
  | .address _ => "address"
  | .nonce _ => "nonce"
  | .status _ => "status"

/-- The content of a response, on its own. -/
def content : Response → Value
  | .generated a => .record [("address", a.toJson)]
  | .signed s => s.toJson
  | .synced o => o.toJson
  | .address a => .record [("address", a.toJson)]
  | .nonce n => .record [("sequence_number", .nat n.toNat)]
  | .status s => .record s.members

/-- The JSON form of a response: its content, and its type beside it. -/
def toJson (r : Response) : Value :=
  r.content.set "type" (.string r.type)

end Response

/-- What a request leads to. -/
abbrev Result := Except Failure Response

end Signatory.Service
