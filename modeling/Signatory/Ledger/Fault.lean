import Signatory.Json.Printer
import Signatory.Text.Quoted

/-!
# Faults of a ledger

What can go wrong between a caller and a ledger: the connection, the ledger's own verdict, an answer
that cannot be understood, or an endpoint of no known kind.
-/

namespace Signatory.Ledger

/-- Why an answer of a ledger cannot be understood. -/
inductive ResponseFault
  | notUnsigned (n : Json.Number)
  | unmarkedQuantity (text : String)
  | badQuantity (text : String) (fault : Text.UnsignedFault)
  | notQuantity (v : Json.Value)
  | notHash (v : Json.Value)
  | undecodable
  | emptyEnvelope
  | other (text : String)

/-- What stands in place of a text, in the words used for a value of the wrong type. -/
def describe : Json.Value → String
  | .null => "null"
  | .bool b => s!"boolean \x60{b}\x60"
  | .number (.int n) => s!"integer \x60{String.ofList (Json.Number.text (.int n))}\x60"
  | .number n => s!"floating point \x60{String.ofList n.text}\x60"
  | .string s => s!"string {Text.quoted s}"
  | .array _ => "sequence"
  | .object _ => "map"

/-- The wording of a fault in an answer. -/
def ResponseFault.message : ResponseFault → String
  | .notUnsigned n => s!"not a u64: {String.ofList n.text}"
  | .unmarkedQuantity text => s!"quantity without 0x: {text}"
  | .badQuantity text fault => s!"bad quantity {text}: {fault.message}"
  | .notQuantity v => s!"unexpected quantity type: {v.render}"
  | .notHash v => s!"invalid type: {describe v}, expected a string"
  | .undecodable => "error decoding response body"
  | .emptyEnvelope => "response has neither result nor error"
  | .other text => text

/-- Why a ledger gave no answer. -/
inductive Fault
  | transport (text : String)
  | rpc (code : Int) (message : String)
  | invalidResponse (fault : ResponseFault)
  | unsupportedEndpoint (endpoint : String)

namespace Fault

/-- The wording of a fault. -/
def message : Fault → String
  | .transport text => s!"Transport error: {text}"
  | .rpc code text => s!"RPC error {code}: {text}"
  | .invalidResponse fault => s!"Invalid ledger response: {fault.message}"
  | .unsupportedEndpoint endpoint => s!"Unsupported ledger endpoint: {endpoint}"

/-- Whether the fault lies in the connection and not in what the ledger said. -/
def isTransport : Fault → Bool
  | .transport _ => true
  | _ => false

end Fault

end Signatory.Ledger
