/-!
# Operations

What a worker can be asked to do with its identity, by name.
-/

namespace Signatory

/-- What a worker can be asked to do. -/
inductive Operation
  | generate
  | sign
  | syncNonce
  | queryAddress
  | queryNonce
  | queryStatus
  deriving DecidableEq, Repr

/-- The name of an operation. -/
def Operation.name : Operation → String
  | .generate => "generate"
  | .sign => "sign"
  | .syncNonce => "sync_nonce"
  | .queryAddress => "query_address"
  | .queryNonce => "query_nonce"
  | .queryStatus => "query_status"

/-- Only an operation that gives a worker its identity may bring a worker into existence. -/
def Operation.createsWorker : Operation → Bool
  | .generate => true
  | _ => false

end Signatory
