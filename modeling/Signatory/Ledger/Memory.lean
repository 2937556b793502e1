import Signatory.Transaction.Signed

/-!
# Ledgers in memory

A ledger that keeps the next sequence number of each account and the transactions it has accepted.
Lookups can be made to fail. A transaction is accepted if it verifies and its sequence number is not
below the signer's next one.
-/

namespace Signatory.Ledger

/-- A ledger in memory. -/
structure Memory where
  /-- The next sequence numbers that are known, the latest first. -/
  nonces : List (Address × UInt64) := []
  /-- The faults of the lookups to come. -/
  faults : List Fault := []
  /-- How many lookups there were, those that failed included. -/
  lookups : Nat := 0
  /-- The accepted transactions, the latest first. -/
  accepted : List SignedTransaction := []
  deriving Inhabited

namespace Memory

/-- A ledger that nobody has used. -/
def empty : Memory := {}

/-- The next sequence number of an account, zero if it is unknown. -/
def nonce (l : Memory) (a : Address) : UInt64 :=
  match l.nonces.find? (·.1 = a) with
  | some entry => entry.2
  | none => 0

/-- Set the next sequence number of an account. -/
def setNonce (l : Memory) (a : Address) (n : UInt64) : Memory :=
  { l with nonces := (a, n) :: l.nonces.filter (·.1 ≠ a) }

/-- Let lookups fail, after those that are to fail already. -/
def failNext (l : Memory) (count : Nat) (fault : Fault) : Memory :=
  { l with faults := l.faults ++ List.replicate count fault }

/-- Look up the next sequence number of an account. -/
def lookup (l : Memory) (a : Address) : Except Fault UInt64 × Memory :=
  let l := { l with lookups := l.lookups + 1 }
  match l.faults with
  | fault :: rest => (.error fault, { l with faults := rest })
  | [] => (.ok (l.nonce a), l)

/-- The transactions accepted so far, in order. -/
def submitted (l : Memory) : List SignedTransaction :=
  l.accepted.reverse

/-- The code of a refused transaction. -/
def refusal : Int := -32000

/-- The number after `n`; the greatest one stays. -/
def next (n : UInt64) : UInt64 :=
  if n = UInt64.ofNat (2 ^ 64 - 1) then n else n + 1

/-- Submit a transaction; its hash is answered if it is accepted. -/
def send (l : Memory) (s : SignedTransaction) : Except Fault String × Memory :=
  if !s.verify then (.error (.rpc refusal "invalid signature"), l)
  else if s.nonce < l.nonce s.signer then
    (.error (.rpc refusal s!"nonce too low: next is {l.nonce s.signer}, got {s.nonce}"), l)
  else
    let l := l.setNonce s.signer (next s.nonce)
    (.ok s.hash, { l with accepted := s :: l.accepted })

/-- The number last set is the next one. -/
@[simp] theorem nonce_setNonce_self (l : Memory) (a : Address) (n : UInt64) :
    (l.setNonce a n).nonce a = n := by
  simp [nonce, setNonce]

end Memory

end Signatory.Ledger
