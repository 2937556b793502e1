import Signatory.Identity
import Signatory.Ledger.Memory

/-!
# Synchronisation

The sequence number of an identity runs ahead of its ledger while transactions are under way, so a
number that the ledger answers is adopted only if it is greater. Lookups that fail are tried again,
up to a limit, with a wait in between; the first that succeeds ends the synchronisation.
-/

namespace Signatory

/-- How a synchronisation that succeeded changed the sequence number. -/
inductive Outcome
  | adopted (previous current : UInt64)
  | unchanged (localNumber remote : UInt64)
  deriving DecidableEq, Repr

namespace Outcome

/-- The sequence number after the synchronisation. -/
def sequenceNumber : Outcome → UInt64
  | .adopted _ current => current
  | .unchanged n _ => n

/-- The members of the JSON form of an outcome. -/
def members : Outcome → List (String × Json.Value)
  | .adopted previous current =>
    [("outcome", .string "adopted"), ("previous", .nat previous.toNat),
      ("current", .nat current.toNat)]
  | .unchanged n remote =>
    [("outcome", .string "unchanged"), ("local", .nat n.toNat), ("remote", .nat remote.toNat)]

/-- The JSON form of an outcome. -/
def toJson (o : Outcome) : Json.Value :=
  .record o.members

end Outcome

/-- How often a lookup is tried and how long to wait after one that failed. -/
structure SyncSettings where
  maxAttempts : UInt32 := 10
  /-- In milliseconds. -/
  backoff : Nat := 0
  deriving DecidableEq, Repr

namespace SyncSettings

/-- How many lookups a synchronisation may make: at least one. -/
def attempts (s : SyncSettings) : UInt32 :=
  max s.maxAttempts 1

end SyncSettings

/-- What follows from the answer to a lookup. -/
inductive SyncStep
  | finished (outcome : Outcome)
  | failed (failure : Failure)
  | again

namespace Identity

/-- Adopt what a ledger answered to a lookup. -/
def adopt (i : Identity) (remote : UInt64) : Outcome × Identity :=
  match i.advanceTo remote with
  | (true, next) => (.adopted i.sequenceNumber remote, next)
  | (false, next) => (.unchanged i.sequenceNumber remote, next)

/-- What follows from the answer to the lookup with the given number, counted from one. -/
def judge (i : Identity) (settings : SyncSettings) (attempt : Nat)
    (answer : Except Ledger.Fault UInt64) : SyncStep × Identity :=
  match answer with
  | .ok remote =>
    let (outcome, i) := i.adopt remote
    (.finished outcome, i)
  | .error fault =>
    if attempt < settings.attempts.toNat then (.again, i)
    else (.failed (.syncFailed settings.attempts fault), i)

/-- How a synchronisation ended: its result, the identity, the ledger and the time waited. -/
structure Synced (L : Type) where
  result : Except Failure Outcome
  identity : Identity
  ledger : L
  waited : Nat

section Lookups

variable {L : Type} (settings : SyncSettings) (lookup : L → Except Ledger.Fault UInt64 × L)

/-- The lookups that are left, `attempt` being the number of the next one. -/
def syncFrom : (left attempt : Nat) → Identity → L → (waited : Nat) → Synced L
  | 0, _, i, ledger, waited =>
    ⟨.error (.syncFailed settings.attempts (.transport "no lookup attempted")), i, ledger, waited⟩
  | left + 1, attempt, i, ledger, waited =>
    let (answer, ledger) := lookup ledger
    match i.judge settings attempt answer with
    | (.finished outcome, i) => ⟨.ok outcome, i, ledger, waited⟩
    | (.failed failure, i) => ⟨.error failure, i, ledger, waited⟩
    | (.again, i) => syncFrom left (attempt + 1) i ledger (waited + settings.backoff)

/-- Synchronise with a ledger, given how it answers a lookup of the identity's account. -/
def syncWith (i : Identity) (ledger : L) : Synced L :=
  syncFrom settings lookup settings.attempts.toNat 1 i ledger 0

end Lookups

/-- Synchronise with a ledger in memory that nobody else uses meanwhile. -/
def sync (i : Identity) (settings : SyncSettings) (ledger : Ledger.Memory) : Synced Ledger.Memory :=
  syncWith settings (·.lookup i.address) i ledger

end Identity

end Signatory
