import Signatory.Address
import Signatory.PrivateKey

/-!
# Signer algorithms

How a transaction is turned into the message that is signed: by the digest of its canonical bytes
alone, or of a chain id before them. A plain signer signs for no chain in particular, a chain-bound
one for its own chain or for none.
-/

namespace Signatory

/-- How a transaction is turned into the message that is signed. -/
inductive Algorithm
  | plain
  | chainBound (chainId : UInt64)
  deriving DecidableEq, Repr

namespace Algorithm

/-- Refuse a transaction that names a chain which the signer may not sign for. -/
def checkChain : Algorithm → Option UInt64 → Except Failure Unit
  | _, none => .ok ()
  | .plain, some chain => .error (.signing (.chainNamed chain))
  | .chainBound bound, some chain =>
    if bound = chain then .ok () else .error (.signing (.chainMismatch bound chain))

/-- What stands before the canonical bytes: the chain id, if there is one. -/
def tag : Algorithm → Bytes
  | .plain => []
  | .chainBound chain => Bytes.bigEndian 8 chain.toNat

/-- The bytes that are hashed for a transaction with the given canonical bytes. -/
def digestInput (a : Algorithm) (canonical : Bytes) : Bytes :=
  a.tag ++ canonical

/-- The message that is signed. -/
def digest (a : Algorithm) (canonical : Bytes) : Bytes :=
  Hash.sha256 (a.digestInput canonical)

/-- The signature for a transaction. -/
def sign (a : Algorithm) (key : SigningKey) (canonical : Bytes) : Bytes :=
  key.sign (a.digest canonical)

/-- Whether a signature is valid for a transaction. -/
def verify (a : Algorithm) (publicKey canonical signature : Bytes) : Bool :=
  Ed25519.verify publicKey (a.digest canonical) signature

/-- The name of an algorithm. -/
def name : Algorithm → String
  | .plain => "plain"
  | .chainBound chain => s!"chain-bound({chain})"

/-- What is shown of an algorithm in summaries. -/
def summary : Algorithm → String
  | .plain => "Plain"
  | .chainBound chain => s!"ChainBound \x7b chain_id: {chain} \x7d"

/-- The JSON form of an algorithm: a record whose kind says which fields it has. -/
def toJson : Algorithm → Json.Value
  | .plain => .record [("kind", .string "plain")]
  | .chainBound chain =>
    .record [("kind", .string "chain_bound"), ("chain_id", .nat chain.toNat)]

/-- The trees of the members with a key. -/
def occurrences (key : String) (members : List (Option String × Json.Tree)) : List Json.Tree :=
  (members.filter (·.1 = some key)).map (·.2)

/-- The algorithm of a kind, from the trees written for its chain id. -/
def ofKind? (kind : String) (chains : List Json.Tree) : Option Algorithm :=
  if kind = "plain" then some .plain
  else if kind = "chain_bound" then
    match chains with
    | [t] => t.uint64?.map .chainBound
    | _ => none
  else none

/-- Read the JSON form of an algorithm: an object with its members in any order, or an array of the
kind and the fields. Every part must mean something, within `room` levels. -/
def ofJson? (room : Nat) (t : Json.Tree) : Option Algorithm :=
  if (t.value? room).isNone then none
  else match t with
    | .object members =>
      match occurrences "kind" members with
      | [kind] => kind.text?.bind (ofKind? · (occurrences "chain_id" members))
      | _ => none
    | .array (kind :: fields) =>
      match kind.text?.bind (ofKind? · fields) with
      | some .plain => if fields.isEmpty then some .plain else none
      | found => found
    | _ => none

end Algorithm

end Signatory
