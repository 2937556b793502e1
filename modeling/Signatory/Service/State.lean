import Signatory.Service.Mailbox
import Signatory.Service.Policy
import Signatory.Service.Table

/-!
# The state of a service

A service has a directory of workers by key, the workers themselves, the callers and what each of
them is doing, the ledgers in memory, a clock, and the tasks that are ready to run. There are two
kinds of task, workers and callers, and they run one at a time, in the order in which they became
ready; one caller may be in the foreground and runs when no other task is ready. The journal records
what was decided, the latest first.
-/

namespace Signatory.Service

/-- A moment at which something is due. Of two that are due at the same time, the one with the lower
ticket comes first. -/
structure Alarm where
  time : Nat
  ticket : Nat
  deriving DecidableEq, Repr, Inhabited

/-- Why a worker left. -/
inductive ExitReason
  | removed
  | idleTimeout
  | shutdown
  | aborted
  deriving DecidableEq, Repr

/-- What a worker is doing. -/
inductive Activity
  /-- It looks for something to do, or waits for it. -/
  | idle
  /-- It connects to a ledger for the envelope in its hand. -/
  | connecting (e : Envelope) (c : Credentials) (outcome : Ledger.Connection) (alarm : Alarm)
  /-- It makes the lookup with the given number for the envelope in its hand. -/
  | syncing (e : Envelope) (attempt : Nat) (alarm : Alarm)
  | left (reason : ExitReason)
  | died

/-- The worker for a key. -/
structure Worker where
  key : String
  identity : Option Identity := none
  mailbox : Mailbox
  /-- When it leaves, unless it accepts a request before. -/
  idle : Alarm
  cancelled : Bool := false
  /-- Whether anyone but the callers who are suspended can still send to it. -/
  isHeld : Bool := true
  activity : Activity := .idle

/-- What comes back for an envelope. -/
inductive Reply
  | answered (r : Result)
  /-- The worker was leaving and did not accept the request. -/
  | handedBack
  /-- The worker died. -/
  | lost

/-- How a call ended. -/
inductive Ending
  | result (r : Result)
  /-- A worker that was addressed directly handed the request back. -/
  | rejected
  /-- A worker that was addressed directly died. -/
  | lost
  /-- The mailbox of a worker that was addressed directly was closed. -/
  | closed
  /-- The caller was dropped. -/
  | withdrawn
  /-- The caller crashed. -/
  | crashed

/-- What a caller is doing. -/
inductive Phase
  | fresh
  /-- Looking for a worker. -/
  | seeking
  /-- Suspended on the mailbox of a worker. -/
  | suspended (w : WorkerId)
  /-- Waiting for the reply of a worker that has its envelope. -/
  | awaiting (w : WorkerId)
  /-- A worker has replied. -/
  | replied (w : WorkerId) (r : Reply)
  | ended (e : Ending)

/-- A caller with one request. -/
structure Caller where
  key : String
  request : Request
  /-- The worker that is addressed directly, if the directory is not to be asked. -/
  direct : Option WorkerId := none
  /-- How many more workers the request may be offered to. -/
  tries : Nat := 3
  phase : Phase := .fresh
  /-- When the caller gives up. -/
  limit : Option Alarm := none
  /-- Whether the caller is to be dropped. -/
  dropped : Bool := false

/-- What can be ready to run. -/
inductive Task
  | worker (w : WorkerId)
  | caller (c : CallerId)
  deriving DecidableEq, Repr

/-- Counts of what has happened. -/
structure Stats where
  created : Nat := 0
  removed : Nat := 0
  evicted : Nat := 0
  aborted : Nat := 0
  dispatched : Nat := 0
  notFound : Nat := 0
  deriving DecidableEq, Repr

/-- What is recorded in the journal. -/
inductive Event
  | dispatched (c : CallerId)
  | spawned (w : WorkerId) (key : String)
  | offered (c : CallerId) (w : WorkerId)
  | queued (c : CallerId) (w : WorkerId)
  | skipped (c : CallerId) (w : WorkerId)
  | accepted (c : CallerId) (w : WorkerId)
  | answered (c : CallerId) (w : WorkerId) (r : Result)
  | hooked (w : WorkerId) (reason : ExitReason)
  | closed (w : WorkerId)
  | handedBack (c : CallerId) (w : WorkerId)
  | died (w : WorkerId)
  | ended (c : CallerId) (e : Ending)
  | removed (w : WorkerId)
  | shutDown

/-- An event and when it happened. -/
structure Entry where
  time : Nat
  event : Event

/-- The state of a service. -/
structure State where
  policy : Policy
  connector : Ledger.Connector
  now : Nat := 0
  /-- How many tickets have been given out. -/
  tickets : Nat := 0
  isShutDown : Bool := false
  /-- The workers by key; no key occurs twice. -/
  directory : List (String × WorkerId) := []
  stats : Stats := {}
  workers : Table Worker := .empty
  callers : Table Caller := .empty
  /-- The ledgers in memory by name; no name occurs twice. -/
  ledgers : List (String × Ledger.Memory) := []
  /-- The tasks that are ready, the earliest first; no task occurs twice. -/
  ready : List Task := []
  running : Option Task := none
  foreground : Option CallerId := none
  /-- Whether the caller in the foreground is ready. -/
  isSummoned : Bool := false
  journal : List Entry := []

namespace Stats

/-- The JSON form of the counts. -/
def toJson (s : Stats) : Json.Value :=
  .record [("created", .nat s.created), ("removed", .nat s.removed), ("evicted", .nat s.evicted),
    ("aborted", .nat s.aborted), ("dispatched", .nat s.dispatched), ("not_found", .nat s.notFound)]

end Stats

namespace Activity

/-- When a worker that waits in the middle of a request goes on. -/
def alarm? : Activity → Option Alarm
  | .connecting _ _ _ alarm => some alarm
  | .syncing _ _ alarm => some alarm
  | _ => none

/-- Whether a worker looks for something to do, or waits for it. -/
def isIdle : Activity → Bool
  | .idle => true
  | _ => false

end Activity

namespace Phase

/-- Whether a call is over. -/
def isEnded : Phase → Bool
  | .ended _ => true
  | _ => false

end Phase

namespace State

/-- A service that nobody has used. -/
def start (policy : Policy) (connector : Ledger.Connector) : State :=
  { policy, connector }

/-- Record an event. -/
def log (s : State) (event : Event) : State :=
  { s with journal := ⟨s.now, event⟩ :: s.journal }

/-- Change a worker. -/
def updateWorker (s : State) (w : WorkerId) (f : Worker → Worker) : State :=
  { s with workers := s.workers.update w f }

/-- Change a caller. -/
def updateCaller (s : State) (c : CallerId) (f : Caller → Caller) : State :=
  { s with callers := s.callers.update c f }

/-- Change the counts. -/
def count (s : State) (f : Stats → Stats) : State :=
  { s with stats := f s.stats }

/-- Give out a ticket for a time. -/
def alarmAt (s : State) (time : Nat) : Alarm × State :=
  (⟨time, s.tickets⟩, { s with tickets := s.tickets + 1 })

/-- Let a task run in its turn, unless it is ready already. -/
def wake (s : State) (t : Task) : State :=
  if s.foreground.map .caller = some t then { s with isSummoned := true }
  else if t ∈ s.ready then s
  else { s with ready := s.ready ++ [t] }

/-- Let callers run in their turn, one after the other. -/
def wakeCallers (s : State) (cs : List CallerId) : State :=
  cs.foldl (fun s c ↦ s.wake (.caller c)) s

/-- Let a worker run, if it waits for something to do. -/
def wakeWorker (s : State) (w : WorkerId) : State :=
  match s.workers.get? w with
  | some worker => if worker.activity.isIdle then s.wake (.worker w) else s
  | none => s

/-- Let the running task rest. -/
def rest (s : State) : State :=
  { s with running := none }

/-- The worker that the directory names for a key. -/
def find? (s : State) (key : String) : Option WorkerId :=
  (s.directory.find? (·.1 = key)).map (·.2)

/-- Take a worker out of the directory, if it is still the one that is named for the key, and say
whether it was. -/
def detach (s : State) (key : String) (w : WorkerId) : Bool × State :=
  if s.find? key = some w then
    (true, { s with directory := s.directory.filter (·.1 ≠ key) })
  else (false, s)

/-- Whether the mailbox of a worker is closed. -/
def isClosed (s : State) (w : WorkerId) : Bool :=
  match s.workers.get? w with
  | some worker => worker.mailbox.closed
  | none => true

/-- The ledger in memory with a name, which may be one that nobody has used. -/
def ledger (s : State) (name : String) : Ledger.Memory :=
  match s.ledgers.find? (·.1 = name) with
  | some (_, l) => l
  | none => .empty

/-- Put a ledger in place of the one with its name. -/
def setLedger (s : State) (name : String) (l : Ledger.Memory) : State :=
  { s with ledgers := (name, l) :: s.ledgers.filter (·.1 ≠ name) }

/-- Make sure that there is a ledger at a place in memory. -/
def ensureLedger (s : State) (place : Ledger.Place) : State :=
  match place with
  | .memory name => s.setLedger name (s.ledger name)
  | .remote _ => s

/-- Look up the next sequence number of an account on a ledger.
Nothing answers at a remote place. -/
def lookup (s : State) (place : Ledger.Place) (a : Address) :
    Except Ledger.Fault UInt64 × State :=
  match place with
  | .memory name =>
    let (answer, l) := (s.ledger name).lookup a
    (answer, s.setLedger name l)
  | .remote url => (.error (.transport s!"error sending request for url ({url})"), s)

end State

end Signatory.Service
