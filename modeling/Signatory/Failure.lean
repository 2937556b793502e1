import Signatory.Hex
import Signatory.Ledger.Fault
import Signatory.Operation

/-!
# Failures

Why an operation was refused, as causes. The wording of each is in `Failure.message`, its short name
in `Failure.kind`, and whether the same request may simply be tried again in
`Failure.isRetryable`. Every group of causes has a place for a text of its own.
-/

namespace Signatory

/-- Why a transaction cannot be signed. -/
inductive SigningFault
  | noGas
  | dataTooLong (length limit : Nat)
  | emptyCreation
  | chainNamed (chain : UInt64)
  | chainMismatch (bound target : UInt64)
  | exhausted (sequenceNumber : UInt64)
  | other (text : String)

/-- Why a text is no private key. -/
inductive KeyFault
  | notHex (fault : Hex.Fault)
  | wrongLength (length : Nat)
  | other (text : String)

/-- Why settings or an address are refused. -/
inductive ConfigFault
  | addressNotHex (text : String) (fault : Hex.Fault)
  | addressLength (text : String)
  | notPositive (setting : String)
  | notPositiveWhenSet (setting : String)
  | other (text : String)

/-- What ought not to happen between a worker and its callers. -/
inductive Violation
  | misrouted (key worker : String)
  | workerStopped (key : String) (operation : Operation)
  | other (text : String)

/-- Why an operation was refused. -/
inductive Failure
  | notFound (key : String)
  | notInitialized (key : String)
  | signing (fault : SigningFault)
  | syncFailed (attempts : UInt32) (source : Ledger.Fault)
  | violation (fault : Violation)
  | invalidKey (fault : KeyFault)
  | ledger (fault : Ledger.Fault)
  | timeout
  | cancelled
  | config (fault : ConfigFault)

/-- The wording of a signing fault. -/
def SigningFault.message : SigningFault → String
  | .noGas => "gas limit must be non-zero"
  | .dataTooLong length limit => s!"data is {length} bytes, limit is {limit}"
  | .emptyCreation => "contract creation requires data"
  | .chainNamed chain => s!"plain signer cannot sign for chain {chain}"
  | .chainMismatch bound target =>
    s!"chain id mismatch: signer bound to {bound}, transaction targets {target}"
  | .exhausted n => s!"sequence number exhausted at {n}"
  | .other text => text

/-- The wording of a key fault. -/
def KeyFault.message : KeyFault → String
  | .notHex fault => s!"not hex: {fault.message}"
  | .wrongLength length => s!"expected 32 bytes, got {length}"
  | .other text => text

/-- The wording of a fault of settings or of an address. -/
def ConfigFault.message : ConfigFault → String
  | .addressNotHex text fault => s!"invalid address {text}: {fault.message}"
  | .addressLength text => s!"invalid address {text}: expected 20 bytes"
  | .notPositive setting => s!"{setting} must be greater than zero"
  | .notPositiveWhenSet setting => s!"{setting} must be greater than zero when set"
  | .other text => text

/-- The wording of a violation. -/
def Violation.message : Violation → String
  | .misrouted key worker => s!"request for key {key} was routed to the worker for {worker}"
  | .workerStopped key operation =>
    s!"worker for {key} stopped while handling {operation.name}"
  | .other text => text

namespace Failure

/-- The wording of a failure. -/
def message : Failure → String
  | .notFound key => s!"Not found: no live worker for key {key}"
  | .notInitialized key => s!"Identity not initialized for key {key}"
  | .signing fault => s!"Signing failed: {fault.message}"
  | .syncFailed attempts source =>
    s!"Nonce sync failed after {attempts} attempts: {source.message}"
  | .violation fault => s!"Internal invariant violation: {fault.message}"
  | .invalidKey fault => s!"Invalid key material: {fault.message}"
  | .ledger fault => s!"Ledger error: {fault.message}"
  | .timeout => "Request timed out"
  | .cancelled => "Registry is shut down"
  | .config fault => s!"Configuration error: {fault.message}"

/-- The short name of a failure. -/
def kind : Failure → String
  | .notFound _ => "not_found"
  | .notInitialized _ => "identity_not_initialized"
  | .signing _ => "signing_failed"
  | .syncFailed .. => "nonce_sync_failed"
  | .violation _ => "internal_invariant_violation"
  | .invalidKey _ => "invalid_key_material"
  | .ledger _ => "ledger"
  | .timeout => "timeout"
  | .cancelled => "cancelled"
  | .config _ => "config"

/-- Whether the same request may simply be tried again. -/
def isRetryable : Failure → Bool
  | .syncFailed .. | .timeout => true
  | .ledger fault => fault.isTransport
  | _ => false

/-- The fault of a ledger that caused a failure. -/
def cause? : Failure → Option Ledger.Fault
  | .syncFailed _ source => some source
  | .ledger fault => some fault
  | _ => none

end Failure

end Signatory
