import Signatory.Ledger.Quantity
import Signatory.Ledger.Url
import Signatory.Transaction.Signed

/-!
# Ledgers over the network

The questions that are put to a remote ledger and how its answers are understood. A question is a
numbered call of a method; an answer is an envelope with a result or an error, of which the error
counts.
-/

namespace Signatory.Ledger.Remote

open Json

/-- The method that answers the next sequence number of an account. -/
def lookupMethod : String := "keyward_getTransactionCount"

/-- The method that takes a signed transaction. -/
def sendMethod : String := "keyward_sendTransaction"

/-- A client of one remote ledger; its questions are numbered from one. -/
structure Client where
  url : String
  nextId : Nat := 1
  deriving Repr

/-- The path that a client asks at, with the query. -/
def Client.path (c : Client) : String :=
  Url.target c.url

/-- The text of a question. -/
def question (id : Nat) (method : String) (params : List Value) : Value :=
  .record [("jsonrpc", .string "2.0"), ("id", .nat id), ("method", .string method),
    ("params", .array params)]

/-- Ask a question, given its method and parameters. -/
def Client.ask (c : Client) (method : String) (params : List Value) : Value × Client :=
  (question c.nextId method params, { c with nextId := c.nextId + 1 })

/-- The parameters of a lookup. -/
def lookupParams (a : Address) : List Value :=
  [a.toJson, .string "latest"]

/-- The parameters of a submission. -/
def sendParams (s : SignedTransaction) : List Value :=
  [s.toJson]

/-- What a ledger puts around its answers. -/
structure Envelope where
  result : Option Value
  error : Option (Int × String)

/-- Read the error in an envelope. -/
def error? (t : Tree) : Option (Int × String) :=
  match t.fields? ["code", "message"] with
  | some [some code, some message] => do
    let code ← code.int64?
    let message ← message.text?
    return (code, message)
  | _ => none

/-- Read an envelope. -/
def Envelope.ofJson? (t : Tree) : Option Envelope :=
  match t.fields? ["result", "error"] with
  | some [result, error] => do
    let result ← Tree.optional? (Tree.value? (nestingLimit - 1)) result
    let error ← Tree.optional? error? error
    return ⟨result, error⟩
  | _ => none

/-- The result in an envelope. -/
def Envelope.content (e : Envelope) : Except Fault Value :=
  match e.error, e.result with
  | some (code, message), _ => .error (.rpc code message)
  | none, some v => .ok v
  | none, none => .error (.invalidResponse .emptyEnvelope)

/-- What comes back over the network: a status and the bytes after it. -/
structure Response where
  status : Nat
  body : Bytes

/-- Whether a status says that the question failed. -/
def Response.isFailure (r : Response) : Bool :=
  400 ≤ r.status && r.status < 600

/-- Whether a status says that no body follows. -/
def Response.isEmpty (r : Response) : Bool :=
  r.status = 204 || r.status = 304

/-- The result that a response carries. -/
def Response.result (r : Response) : Except Fault Value :=
  if r.isFailure then .error (.transport s!"HTTP status {r.status}")
  else
    let body := if r.isEmpty then [] else r.body
    match (Tree.ofBytes? body).bind Envelope.ofJson? with
    | none => .error (.invalidResponse .undecodable)
    | some e => e.content

/-- The sequence number that the response to a lookup carries. -/
def Response.nonce (r : Response) : Except Fault UInt64 := do
  match quantity (← r.result) with
  | .ok n => .ok n
  | .error fault => .error (.invalidResponse fault)

/-- The hash that the response to a submission carries. -/
def Response.hash (r : Response) : Except Fault String := do
  match ← r.result with
  | .string hash => .ok hash
  | v => .error (.invalidResponse (.notHash v))

end Signatory.Ledger.Remote
