import Signatory.Service.Control

/-!
# Commands

A command is a line of words: its name, and what it is about. Words beyond those that a command
needs are ignored. Carrying out a command gives one JSON object, with a result or with an error.
-/

namespace Signatory

/-- What a line can ask for. -/
inductive Command
  | generate (key : String) (c : Service.Credentials)
  | sign (key : String) (d : Draft)
  | sync (key : String)
  | query (key : String) (q : Service.Query)
  | remove (key : String)
  | stats
  | quit

/-- Why a line is no command. -/
inductive UsageFault
  | empty
  | missingKey (name : String)
  | generateWords
  | signWords
  | badKey (failure : Failure)
  | badChain (word : String)
  | badAddress (failure : Failure)
  | badValue (word : String)
  | badData (fault : Hex.Fault)
  | unknown (name : String)

/-- The wording of a usage fault. -/
def UsageFault.message : UsageFault → String
  | .empty => "empty command"
  | .missingKey name => s!"usage: {name} <key>"
  | .generateWords => "usage: generate <key> <private-key-hex> [endpoint] [chain-id]"
  | .signWords => "usage: sign <key> <to> <value> [data-hex]"
  | .badKey failure | .badAddress failure => failure.message
  | .badChain word => s!"invalid chain id: {word}"
  | .badValue word => s!"invalid value: {word}"
  | .badData fault => s!"invalid data: {fault.message}"
  | .unknown name => s!"unknown command: {name}"

namespace Command

/-- The algorithm that the words after the endpoint ask for. -/
def algorithm : List String → Except UsageFault Algorithm
  | [] => .ok .plain
  | word :: _ =>
    match Text.readUInt64 word.toList with
    | .ok chain => .ok (.chainBound chain)
    | .error _ => .error (.badChain word)

/-- Read what comes after the name of a generate command. -/
def generateOf (endpoint : String) : List String → Except UsageFault Command
  | key :: secret :: optional => do
    let privateKey ← (PrivateKey.ofText secret).mapError .badKey
    let algorithm ← algorithm (optional.drop 1)
    return .generate key { endpoint := optional.headD endpoint, privateKey, algorithm }
  | _ => .error .generateWords

/-- The data that the words after the value ask for; any number of 0x may stand before it. -/
def data : List String → Except UsageFault Bytes
  | [] => .ok []
  | word :: _ => (Hex.decode (Hex.dropMarks word.toList)).mapError .badData

/-- Read what comes after the name of a sign command. -/
def signOf : List String → Except UsageFault Command
  | key :: account :: value :: optional => do
    let recipient ← (Address.ofText account).mapError .badAddress
    let amount ← (Text.readUInt64 value.toList).mapError fun _ ↦ .badValue value
    let data ← data optional
    return .sign key { Draft.transfer recipient amount with data }
  | _ => .error .signWords

/-- Read what comes after the name of a command that only needs a key. -/
def keyOf (name : String) (make : String → Command) : List String → Except UsageFault Command
  | key :: _ => .ok (make key)
  | [] => .error (.missingKey name)

/-- The command that words spell; an identity is generated on the given endpoint if none is
named. -/
def ofWords (endpoint : String) : List String → Except UsageFault Command
  | [] => .error .empty
  | name :: rest =>
    match name with
    | "generate" => generateOf endpoint rest
    | "sign" => signOf rest
    | "sync" => keyOf name .sync rest
    | "address" => keyOf name (.query · .address) rest
    | "nonce" => keyOf name (.query · .nonce) rest
    | "status" => keyOf name (.query · .status) rest
    | "remove" => keyOf name .remove rest
    | "stats" => .ok .stats
    | "quit" | "exit" => .ok .quit
    | _ => .error (.unknown name)

/-- The command that a line spells. -/
def ofLine (endpoint line : String) : Except UsageFault Command :=
  ofWords endpoint ((Text.words line.toList).map String.ofList)

open Json Service

/-- The object for a result. -/
def success (result : Value) : Value :=
  .record [("ok", .bool true), ("result", result)]

/-- The object for a failure. -/
def failed (e : Failure) : Value :=
  .record [("ok", .bool false),
    ("error", .record [("kind", .string e.kind), ("message", .string e.message),
      ("retryable", .bool e.isRetryable)])]

/-- The object for a line that is no command. -/
def refused (fault : UsageFault) : Value :=
  .record [("ok", .bool false),
    ("error", .record [("kind", .string "usage"), ("message", .string fault.message)])]

/-- What is shown of a response to a command. -/
def shown (key : String) : Response → Value
  | .generated a => .record [("key", .string key), ("address", a.toJson)]
  | r => r.content

/-- Ask the worker for a key, and give the object for its answer; there is none if the call
crashed. -/
def ask (s : State) (key : String) (request : Request) : Option Value × State :=
  let (c, s) := s.call { key, request }
  match s.ending? c with
  | some (.result (.ok r)) => (some (success (shown key r)), s)
  | some (.result (.error e)) => (some (failed e), s)
  | _ => (none, s)

/-- Carry out a command. -/
def execute (s : State) : Command → Option Value × State
  | .generate key c => ask s key (.generate c)
  | .sign key d => ask s key (.sign d)
  | .sync key => ask s key .syncNonce
  | .query key q => ask s key (.query q)
  | .remove key =>
    match s.remove key with
    | (.ok (), s) => (some (success (.record [("removed", .string key)])), s.settle)
    | (.error e, s) => (some (failed e), s)
  | .stats =>
    (some (success (.record [("workers", .nat s.size), ("stats", s.stats.toJson)])), s)
  | .quit => (some (success .null), s)

end Command

end Signatory
