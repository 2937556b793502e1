import Signatory.Transaction.Canonical
import Signatory.Transaction.Document

/-!
# Signed transactions

A transaction with its signature, the key and the algorithm that it was made with, and the address
of the signer. The hash names the signed transaction: it is the digest of the canonical bytes
followed by the signature.
-/

namespace Signatory

/-- A transaction with its signature. -/
structure SignedTransaction where
  transaction : Transaction
  algorithm : Algorithm
  signer : Address
  publicKey : Bytes
  signature : Bytes
  hash : String
  deriving DecidableEq

namespace SignedTransaction

/-- The hash of a transaction with the given canonical bytes and signature. -/
def hashOf (canonical signature : Bytes) : String :=
  Hex.encodeMarked (Hash.sha256 (canonical ++ signature))

/-- Sign a transaction, whatever it says. -/
def make (key : SigningKey) (signer : Address) (algorithm : Algorithm) (t : Transaction) :
    SignedTransaction :=
  let signature := algorithm.sign key t.canonical
  ⟨t, algorithm, signer, key.publicKey, signature, hashOf t.canonical signature⟩

/-- The place of the transaction in its signer's sequence. -/
def nonce (s : SignedTransaction) : UInt64 :=
  s.transaction.nonce

/-- Whether the public key is the signer's and the signature is valid under it. -/
def verify (s : SignedTransaction) : Bool :=
  Ed25519.isPublicKey s.publicKey && Address.ofPublicKey s.publicKey = s.signer &&
    s.algorithm.verify s.publicKey s.transaction.canonical s.signature

open Json

/-- The fields of a signed transaction, in order. -/
def fieldNames : List String :=
  ["transaction", "algorithm", "signer", "public_key", "signature", "hash"]

/-- The JSON form of a signed transaction. -/
def toJson (s : SignedTransaction) : Value :=
  .record [("transaction", s.transaction.toJson), ("algorithm", s.algorithm.toJson),
    ("signer", s.signer.toJson), ("public_key", s.publicKey.toJson),
    ("signature", s.signature.toJson), ("hash", .string s.hash)]

/-- Read the JSON form of a signed transaction, within `room` levels. -/
def ofJson? (room : Nat) (t : Tree) : Option SignedTransaction :=
  match t.fields? fieldNames with
  | some [some transaction, some algorithm, some signer, some publicKey, some signature,
      some hash] => do
    let transaction ← Transaction.ofJson? transaction
    let algorithm ← Algorithm.ofJson? (room - 1) algorithm
    let signer ← Address.ofJson? signer
    let publicKey ← Bytes.ofJson? publicKey
    let signature ← Bytes.ofJson? signature
    let hash ← hash.text?
    return ⟨transaction, algorithm, signer, publicKey, signature, hash⟩
  | _ => none

end SignedTransaction

end Signatory
