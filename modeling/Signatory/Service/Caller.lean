import Signatory.Service.Clock

/-!
# Callers

What a caller does when it runs. It looks for the worker of its key, creating one if its request may
do that, and puts its envelope into the worker's mailbox as soon as there is room. If the worker is
leaving, the request comes back and another worker is looked for, three in all. A caller that has to
wait gives up when its time is over; the reply is looked at first.
-/

namespace Signatory.Service.State

/-- The greatest capacity that a mailbox can have. -/
def capacityLimit : Nat := 2 ^ 61 - 1

/-- End a call. -/
def conclude (s : State) (c : CallerId) (e : Ending) : State :=
  ((s.updateCaller c fun caller ↦ { caller with phase := .ended e }).log (.ended c e)).rest

/-- Forget that a caller is suspended on a mailbox. Its place, if one was reserved, goes to the
next; the worker learns of it if nobody else can send to it. -/
def withdraw (s : State) (c : CallerId) (caller : Caller) : State :=
  match caller.phase with
  | .suspended w =>
    match s.workers.get? w with
    | none => s
    | some worker =>
      let (next, mailbox) := (worker.mailbox.withdraw c).grant
      let s := s.updateWorker w fun worker ↦ { worker with mailbox }
      let s := s.wakeCallers next.toList
      if !worker.isHeld && !mailbox.isAwaited then s.wakeWorker w else s
  | _ => s

/-- Wait; a caller whose time is over gives up. -/
def pend (s : State) (c : CallerId) (caller : Caller) : State :=
  match caller.direct, s.policy.requestTimeout with
  | none, some limit =>
    let (alarm, s) := match caller.limit with
      | some alarm => (alarm, s)
      | none => s.alarmAfter limit
    if alarm.time ≤ s.now then (s.withdraw c caller).conclude c (.result (.error .timeout))
    else (s.updateCaller c fun caller ↦ { caller with limit := some alarm }).rest
  | _, _ => s.rest

/-- Create a worker for a key and enter it in the directory. -/
def spawn (s : State) (key : String) : WorkerId × State :=
  let w := s.workers.size
  let (idle, s) := s.alarmAfter s.policy.idleTimeout
  let worker : Worker := { key, mailbox := { capacity := max s.policy.queueCapacity 1 }, idle }
  let s := { s with workers := s.workers.push worker }
  let s := (s.log (.spawned w key)).wake (.worker w)
  let s := s.count fun n ↦ { n with created := n.created + 1 }
  (w, { s with directory := (key, w) :: s.directory.filter (·.1 ≠ key) })

/-- End a call for whose key there is no worker. -/
def concludeNotFound (s : State) (c : CallerId) (key : String) : State :=
  (s.count fun n ↦ { n with notFound := n.notFound + 1 }).conclude c
    (.result (.error (.notFound key)))

/-- Look for another worker after one that did not accept the request. -/
def retry (s : State) (c : CallerId) : State :=
  s.updateCaller c fun caller ↦ { caller with phase := .seeking, tries := caller.tries - 1 }

/-- Find a mailbox closed. -/
def turnedAway (s : State) (c : CallerId) (caller : Caller) (w : WorkerId) : State :=
  match caller.direct with
  | some _ => s.conclude c .closed
  | none => (s.detach caller.key w).2.retry c

/-- Put an envelope into a mailbox that has a place for it. -/
def enqueue (s : State) (c : CallerId) (caller : Caller) (w : WorkerId)
    (put : Mailbox → Envelope → Mailbox) : State :=
  let e : Envelope := ⟨caller.key, caller.request, c⟩
  let s := s.updateWorker w fun worker ↦ { worker with mailbox := put worker.mailbox e }
  let s := s.updateCaller c fun caller ↦ { caller with phase := .awaiting w }
  (s.log (.queued c w)).wakeWorker w

/-- Offer a request to a worker. -/
def offer (s : State) (c : CallerId) (caller : Caller) (w : WorkerId) : State :=
  let s := s.log (.offered c w)
  match s.workers.get? w with
  | none => s.turnedAway c caller w
  | some worker =>
    if worker.mailbox.closed then s.turnedAway c caller w
    else if 0 < worker.mailbox.free then s.enqueue c caller w Mailbox.push
    else
      let s := s.updateWorker w fun worker ↦ { worker with mailbox := worker.mailbox.suspend c }
      s.updateCaller c fun caller ↦ { caller with phase := .suspended w }

/-- Offer a request to a worker that is created for it. -/
def offerNew (s : State) (c : CallerId) (caller : Caller) : State :=
  if capacityLimit < s.policy.queueCapacity then s.conclude c .crashed
  else
    let (w, s) := s.spawn caller.key
    s.offer c caller w

/-- Look for the worker of a key, by way of the directory. -/
def seek (s : State) (c : CallerId) (caller : Caller) : State :=
  if caller.tries = 0 then s.concludeNotFound c caller.key
  else if s.isShutDown then s.conclude c (.result (.error .cancelled))
  else match s.find? caller.key with
    | some w =>
      if caller.request.createsWorker && s.isClosed w then s.offerNew c caller
      else s.offer c caller w
    | none =>
      if caller.request.createsWorker then s.offerNew c caller
      else s.concludeNotFound c caller.key

/-- Go on when a mailbox has room or is closed. -/
def resume (s : State) (c : CallerId) (caller : Caller) (w : WorkerId) : State :=
  match s.workers.get? w with
  | none => s.turnedAway c caller w
  | some worker =>
    if worker.mailbox.closed then s.turnedAway c caller w
    else if c ∈ worker.mailbox.reserved then s.enqueue c caller w Mailbox.occupy
    else s.pend c caller

/-- Go on when a worker has replied. -/
def receive (s : State) (c : CallerId) (caller : Caller) (w : WorkerId) : Reply → State
  | .answered r => s.conclude c (.result r)
  | .handedBack =>
    match caller.direct with
    | some _ => s.conclude c .rejected
    | none => s.retry c
  | .lost =>
    match caller.direct with
    | some _ => s.conclude c .lost
    | none =>
      let (found, s) := s.detach caller.key w
      let s := if found then s.count fun n ↦ { n with aborted := n.aborted + 1 } else s
      s.conclude c
        (.result (.error (.violation (.workerStopped caller.key caller.request.operation))))

/-- Begin a call. -/
def begin (s : State) (c : CallerId) (caller : Caller) : State :=
  let s := s.updateCaller c fun caller ↦ { caller with phase := .seeking }
  match caller.direct with
  | some _ => s
  | none => (s.log (.dispatched c)).count fun n ↦ { n with dispatched := n.dispatched + 1 }

/-- Run a caller until it has decided one thing. -/
def stepCaller (s : State) (c : CallerId) : State :=
  match s.callers.get? c with
  | none => s.rest
  | some caller =>
    if caller.phase.isEnded then s.rest
    else if caller.dropped then (s.withdraw c caller).conclude c .withdrawn
    else match caller.phase with
      | .fresh => s.begin c caller
      | .seeking =>
        match caller.direct with
        | some w => s.offer c caller w
        | none => s.seek c caller
      | .suspended w => s.resume c caller w
      | .awaiting _ => s.pend c caller
      | .replied w r => s.receive c caller w r
      | .ended _ => s.rest

end Signatory.Service.State
