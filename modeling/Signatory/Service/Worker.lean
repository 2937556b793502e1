import Signatory.Service.Clock
import Signatory.Service.Handling

/-!
# Workers

What a worker does when it runs. It looks for something to do in a fixed order: whether it has been
cancelled, whether there is mail, whether it has idled too long. Mail whose caller has left is
skipped; other mail is accepted, which sets the idle deadline anew, and is then worked on until it
is answered. A worker that leaves takes itself out of the directory, closes its mailbox, and hands
back what is still in it; one that dies does not take itself out.
-/

namespace Signatory.Service.State

/-- Whether a caller still waits for the reply of a worker. -/
def awaits (s : State) (c : CallerId) (w : WorkerId) : Bool :=
  match s.callers.get? c with
  | some caller =>
    match caller.phase with
    | .awaiting v => v = w
    | _ => false
  | none => false

/-- Deliver a reply, if its caller still waits for it. -/
def deliver (s : State) (w : WorkerId) (c : CallerId) (r : Reply) : State :=
  if s.awaits c w then
    (s.updateCaller c fun caller ↦ { caller with phase := .replied w r }).wake (.caller c)
  else s

/-- Reserve a free place in a mailbox for the caller who has waited longest. -/
def grantPlace (s : State) (w : WorkerId) : State :=
  match s.workers.get? w with
  | none => s
  | some worker =>
    match worker.mailbox.grant with
    | (none, _) => s
    | (some c, mailbox) =>
      (s.updateWorker w fun worker ↦ { worker with mailbox }).wake (.caller c)

/-- Hand an envelope back to its caller. -/
def handBack (s : State) (w : WorkerId) (e : Envelope) : State :=
  if s.awaits e.caller w then
    (s.log (.handedBack e.caller w)).deliver w e.caller .handedBack
  else s

/-- Count a worker that leaves by itself. -/
def countExit (s : State) : ExitReason → State
  | .idleTimeout => s.count fun n ↦ { n with evicted := n.evicted + 1 }
  | .aborted => s.count fun n ↦ { n with aborted := n.aborted + 1 }
  | .removed | .shutdown => s

/-- Take a worker that leaves out of the directory. -/
def hook (s : State) (w : WorkerId) (key : String) (reason : ExitReason) : State :=
  ((s.log (.hooked w reason)).detach key w).2.countExit reason

/-- Close the mailbox of a worker; the callers who wait for a place will find it closed. -/
def closeMailbox (s : State) (w : WorkerId) (mailbox : Mailbox) : State :=
  ((s.updateWorker w fun worker ↦ { worker with mailbox := mailbox.close }).log
    (.closed w)).wakeCallers mailbox.waiting

/-- Let a worker leave. -/
def leave (s : State) (w : WorkerId) (worker : Worker) (reason : ExitReason) : State :=
  let s := s.hook w worker.key reason
  let s := s.closeMailbox w worker.mailbox
  let s := worker.mailbox.queue.foldl (fun s e ↦ s.handBack w e) s
  (s.updateWorker w fun worker ↦ { worker with activity := .left reason }).rest

/-- Let a worker die with the envelope in its hand. -/
def die (s : State) (w : WorkerId) (worker : Worker) (hand : Envelope) : State :=
  let s := (s.log (.died w)).deliver w hand.caller .lost
  let s := s.closeMailbox w worker.mailbox
  let s := worker.mailbox.queue.foldl (fun s e ↦ s.deliver w e.caller .lost) s
  (s.updateWorker w fun worker ↦ { worker with activity := .died }).rest

/-- Answer an envelope. -/
def respond (s : State) (w : WorkerId) (e : Envelope) (r : Result) : State :=
  (s.log (.answered e.caller w r)).deliver w e.caller (.answered r)

/-- Answer an envelope and look for something else to do. -/
def complete (s : State) (w : WorkerId) (e : Envelope) (done : Result × Option Identity) : State :=
  (s.updateWorker w fun worker ↦
    { worker with identity := done.2, activity := .idle }).respond w e done.1

/-- Begin to connect for an envelope. -/
def beginConnect (s : State) (w : WorkerId) (e : Envelope) (c : Credentials) : State :=
  let attempt := s.connector c.endpoint
  let (alarm, s) := s.alarmAfter attempt.wait
  s.updateWorker w fun worker ↦
    { worker with activity := .connecting e c attempt.outcome alarm }

/-- Begin a lookup for an envelope after a wait. -/
def beginLookup (s : State) (w : WorkerId) (e : Envelope) (attempt wait : Nat) : State :=
  let (alarm, s) := s.alarmAfter wait
  s.updateWorker w fun worker ↦ { worker with activity := .syncing e attempt alarm }

/-- Begin to work on a request. -/
def handle (s : State) (w : WorkerId) (worker : Worker) (e : Envelope) : State :=
  let s := s.log (.accepted e.caller w)
  match e.request with
  | .generate c => s.beginConnect w e c
  | .sign d => s.complete w e (handleSign worker.key worker.identity d)
  | .query q => s.complete w e (handleQuery worker.key worker.identity q)
  | .syncNonce =>
    match worker.identity with
    | none => s.complete w e (.error (.notInitialized worker.key), none)
    | some _ => s.beginLookup w e 1 0

/-- Accept an envelope, unless it is meant for another worker. -/
def accept (s : State) (w : WorkerId) (worker : Worker) (e : Envelope) : State :=
  if e.key = worker.key then s.handle w worker e
  else
    let s := s.respond w e (.error (.violation (.misrouted e.key worker.key)))
    s.leave w worker .aborted

/-- Take an envelope that has been taken out of the mailbox. -/
def take (s : State) (w : WorkerId) (worker : Worker) (e : Envelope) : State :=
  if !s.awaits e.caller w then s.log (.skipped e.caller w)
  else if !s.canReach s.policy.idleTimeout then s.die w worker e
  else
    let (idle, s) := s.alarmAfter s.policy.idleTimeout
    (s.updateWorker w fun worker ↦ { worker with idle }).accept w worker e

/-- Look for something to do. -/
def look (s : State) (w : WorkerId) (worker : Worker) : State :=
  if worker.cancelled then
    s.leave w worker (if s.isShutDown then .shutdown else .removed)
  else match worker.mailbox.pop? with
    | some (e, mailbox) =>
      let s := (s.updateWorker w fun worker ↦ { worker with mailbox }).grantPlace w
      match s.workers.get? w with
      | some worker => s.take w worker e
      | none => s.rest
    | none =>
      if !worker.isHeld && !worker.mailbox.isAwaited then s.leave w worker .removed
      else if worker.idle.time ≤ s.now then s.leave w worker .idleTimeout
      else s.rest

/-- Go on when an attempt to connect has ended. -/
def connected (s : State) (w : WorkerId) (worker : Worker) (e : Envelope) (c : Credentials) :
    Ledger.Connection → State
  | .crash => s.die w worker e
  | .refused fault => s.complete w e (.error (.ledger fault), worker.identity)
  | .place place => (s.ensureLedger place).complete w e (handleConnected c place)

/-- Make a lookup and go on with its answer. -/
def lookedUp (s : State) (w : WorkerId) (worker : Worker) (e : Envelope) (attempt : Nat) : State :=
  match worker.identity with
  | none => s.complete w e (.error (.notInitialized worker.key), none)
  | some i =>
    let (answer, s) := s.lookup i.ledger i.address
    match handleAnswer s.policy.sync i attempt answer with
    | (some r, i) => s.complete w e (r, some i)
    | (none, _) => s.beginLookup w e (attempt + 1) s.policy.sync.backoff

/-- Run a worker until it has decided one thing. -/
def stepWorker (s : State) (w : WorkerId) : State :=
  match s.workers.get? w with
  | none => s.rest
  | some worker =>
    match worker.activity with
    | .idle => s.look w worker
    | .connecting e c outcome alarm =>
      if alarm.time ≤ s.now then s.connected w worker e c outcome else s.rest
    | .syncing e attempt alarm =>
      if alarm.time ≤ s.now then s.lookedUp w worker e attempt else s.rest
    | .left _ | .died => s.rest

/-- Tell a worker to leave when it next looks for something to do. -/
def cancel (s : State) (w : WorkerId) : State :=
  (s.updateWorker w fun worker ↦ { worker with cancelled := true }).wakeWorker w

end Signatory.Service.State
