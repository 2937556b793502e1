import Signatory.Ledger.Fault
import Signatory.Text.Unsigned

/-!
# Endpoints

The text that says where a ledger is: `memory://` and a name for a ledger in memory, `http://` or
`https://` for one that is asked over the network. A connector turns an endpoint into a ledger; it
may take its time, and it may crash.
-/

namespace Signatory.Ledger

/-- Where a ledger is. -/
inductive Place
  | memory (name : String)
  | remote (url : String)
  deriving DecidableEq, Repr

/-- The rest of a text after its beginning, if it begins so. -/
def after? (beginning text : String) : Option String :=
  if beginning.toList.isPrefixOf text.toList then
    some (String.ofList (text.toList.drop beginning.length))
  else none

/-- The place that an endpoint names. -/
def Place.ofEndpoint (endpoint : String) : Except Fault Place :=
  match after? "memory://" endpoint with
  | some name =>
    if name.isEmpty then .error (.unsupportedEndpoint endpoint) else .ok (.memory name)
  | none =>
    if (after? "http://" endpoint).isSome || (after? "https://" endpoint).isSome then
      .ok (.remote endpoint)
    else .error (.unsupportedEndpoint endpoint)

/-- How an attempt to connect ends. -/
inductive Connection
  | place (p : Place)
  | refused (fault : Fault)
  | crash
  deriving Inhabited

/-- What a connector does for an endpoint: after a wait in milliseconds, the attempt ends. -/
structure Attempt where
  wait : Nat
  outcome : Connection
  deriving Inhabited

/-- A way of connecting to endpoints. -/
abbrev Connector := String → Attempt

/-- Connect at once. -/
def Connector.direct : Connector := fun endpoint ↦
  match Place.ofEndpoint endpoint with
  | .ok place => ⟨0, .place place⟩
  | .error fault => ⟨0, .refused fault⟩

/-- Split a text at its first slash. -/
def splitSlash (text : List Char) : Option (List Char × List Char) :=
  match text.dropWhile (· ≠ '/') with
  | [] => none
  | _ :: rest => some (text.takeWhile (· ≠ '/'), rest)

/-- Connect for a rehearsal: `panic://` crashes, and `slow://`, a number of milliseconds and a
slash put a wait before the endpoint that follows. -/
def Connector.rehearsal : Connector := fun endpoint ↦
  match after? "slow://" endpoint with
  | none => ⟨0, immediate endpoint⟩
  | some text =>
    match splitSlash text.toList with
    | none => ⟨0, .refused (.unsupportedEndpoint endpoint)⟩
    | some (wait, rest) =>
      match Text.readUnsigned 10 64 wait with
      | .error _ => ⟨0, .refused (.unsupportedEndpoint endpoint)⟩
      | .ok wait => ⟨wait, immediate (String.ofList rest)⟩
where
  /-- How an attempt without a wait ends. -/
  immediate (endpoint : String) : Connection :=
    if (after? "panic://" endpoint).isSome then .crash
    else (Connector.direct endpoint).outcome

end Signatory.Ledger
