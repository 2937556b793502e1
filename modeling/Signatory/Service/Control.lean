import Signatory.Service.Run

/-!
# Using a service

What can be done with a service from outside: calls, which are waited for or run on their own,
removal of a worker, shutdown, and looking at the directory.
-/

namespace Signatory.Service.State

/-- Let every task run until it waits, then look again from outside. -/
def await (s : State) (finished : State → Bool) : State :=
  s.runUntil finished s.jumpBound |>.settle

/-- Let some time pass. -/
def sleep (s : State) (ms : Nat) : State :=
  (s.runTo (s.now + ms) s.jumpBound).settle

/-- How a call has ended, if it has. -/
def ending? (s : State) (c : CallerId) : Option Ending :=
  match s.callers.get? c with
  | some caller =>
    match caller.phase with
    | .ended e => some e
    | _ => none
  | none => none

/-- Whether a call has ended. -/
def hasEnded (s : State) (c : CallerId) : Bool :=
  (s.ending? c).isSome

/-- Add a caller that does not run yet. -/
def addCaller (s : State) (caller : Caller) : CallerId × State :=
  (s.callers.size, { s with callers := s.callers.push caller })

/-- Start a call that runs on its own. -/
def spawnCall (s : State) (caller : Caller) : CallerId × State :=
  let (c, s) := s.addCaller caller
  (c, s.wake (.caller c))

/-- Wait for a call to end. -/
def join (s : State) (c : CallerId) : State :=
  s.await fun s ↦ s.hasEnded c

/-- Make a call and wait for it to end. -/
def call (s : State) (caller : Caller) : CallerId × State :=
  let (c, s) := s.addCaller caller
  let s := { s with foreground := some c, running := some (.caller c) }
  (c, { s.join c with foreground := none, isSummoned := false })

/-- Drop a caller, unless its call is over. -/
def dropCaller (s : State) (c : CallerId) : State :=
  if s.hasEnded c then s
  else (s.updateCaller c fun caller ↦ { caller with dropped := true }).wake (.caller c)

/-- Remove the worker for a key. -/
def remove (s : State) (key : String) : Except Failure Unit × State :=
  match s.find? key with
  | none =>
    (.error (.notFound key), s.count fun n ↦ { n with notFound := n.notFound + 1 })
  | some w =>
    let s := (s.detach key w).2.cancel w
    (.ok (), (s.log (.removed w)).count fun n ↦ { n with removed := n.removed + 1 })

/-- Stop every worker and refuse further requests. -/
def shutdown (s : State) : State :=
  if s.isShutDown then s
  else
    let s := { s with isShutDown := true }.log .shutDown
    (List.range s.workers.size).foldl cancel s

/-- Put an envelope into the mailbox of a worker, for a caller who has left already, and say whether
there was room. -/
def abandon (s : State) (w : WorkerId) (caller : Caller) : Bool × State :=
  match s.workers.get? w with
  | none => (false, s)
  | some worker =>
    if worker.mailbox.closed || worker.mailbox.free = 0 then (false, s)
    else
      let (c, s) := s.addCaller { caller with phase := .ended .withdrawn }
      let e : Envelope := ⟨caller.key, caller.request, c⟩
      let s := s.updateWorker w fun worker ↦ { worker with mailbox := worker.mailbox.push e }
      (true, s.wakeWorker w)

/-- Forget how to send to a worker; callers who are suspended on its mailbox can still do so. -/
def release (s : State) (w : WorkerId) : State :=
  (s.updateWorker w fun worker ↦ { worker with isHeld := false }).wakeWorker w

/-- The keys in the directory, in order. -/
def keys (s : State) : List String :=
  (s.directory.map (·.1)).mergeSort fun a b ↦ !decide (b < a)

/-- How many workers the directory has. -/
def size (s : State) : Nat :=
  s.directory.length

/-- Whether the directory has a worker for a key. -/
def contains (s : State) (key : String) : Bool :=
  (s.find? key).isSome

/-- What is shown of a service in summaries. -/
def summary (s : State) : String :=
  s!"Registry \x7b workers: {s.size}, config: " ++ s.policy.summary ++ " \x7d"

end Signatory.Service.State
