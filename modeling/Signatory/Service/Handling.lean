import Signatory.Service.Request
import Signatory.Ledger.Endpoint

/-!
# Handling requests

What a worker answers to a request, and what the request does to its identity. Requests that need a
ledger are handled in pieces: what follows from an attempt to connect, and what follows from the
answer to a lookup. A request that fails leaves the identity as it was.
-/

namespace Signatory.Service

/-- Sign a draft with the next sequence number. -/
def handleSign (key : String) (identity : Option Identity) (d : Draft) :
    Result × Option Identity :=
  match identity with
  | none => (.error (.notInitialized key), none)
  | some i =>
    match i.signNext d with
    | .error e => (.error e, some i)
    | .ok (signed, i) => (.ok (.signed signed), some i)

/-- What is told about the identity of the worker for a key. -/
def answerQuery (key : String) (i : Identity) : Query → Response
  | .address => .address i.address
  | .nonce => .nonce i.sequenceNumber
  | .status => .status ⟨key, i.address, i.sequenceNumber, i.algorithm, i.endpoint⟩

/-- Answer a query. -/
def handleQuery (key : String) (identity : Option Identity) (q : Query) :
    Result × Option Identity :=
  match identity with
  | none => (.error (.notInitialized key), none)
  | some i => (.ok (answerQuery key i q), some i)

/-- Take on an identity on the ledger that was connected to. -/
def handleConnected (c : Credentials) (place : Ledger.Place) : Result × Option Identity :=
  let i := Identity.make c.privateKey c.algorithm place c.endpoint c.sequenceNumber
  (.ok (.generated i.address), some i)

/-- What follows from the answer to a lookup: a result, or another lookup. -/
def handleAnswer (settings : SyncSettings) (i : Identity) (attempt : Nat)
    (answer : Except Ledger.Fault UInt64) : Option Result × Identity :=
  match i.judge settings attempt answer with
  | (.finished outcome, i) => (some (.ok (.synced outcome)), i)
  | (.failed failure, i) => (some (.error failure), i)
  | (.again, i) => (none, i)

end Signatory.Service
