import Signatory.Service.Caller
import Signatory.Service.Worker

/-!
# Running a service

A service runs in small steps. While any task is ready the tasks run, the earliest first, each until
it has to wait; only when none is ready does the clock move, to the next moment at which something
is due. What is due then becomes ready in the order of its tickets, and a caller in the foreground
runs before the others.
-/

namespace Signatory.Service.State

/-- Take one step, unless no task is ready. -/
def step (s : State) : Option State :=
  match s.running with
  | some (.worker w) => some (s.stepWorker w)
  | some (.caller c) => some (s.stepCaller c)
  | none =>
    match s.ready with
    | t :: ready => some { s with ready, running := some t }
    | [] =>
      match s.foreground with
      | some c =>
        if s.isSummoned then some { s with running := some (.caller c), isSummoned := false }
        else none
      | none => none

/-- Take steps until no task is ready, at most as many as there is fuel for. -/
def runReady : (fuel : Nat) → State → State
  | 0, s => s
  | fuel + 1, s =>
    match s.step with
    | none => s
    | some s => runReady fuel s

/-- More steps than can be taken before every task waits. -/
def stepBound (s : State) : Nat :=
  let tasks := 4 * s.callers.size + s.workers.size + s.ready.length + 2
  64 * tasks * tasks + 16 * tasks * (s.policy.sync.attempts.toNat + 1)

/-- Run until every task waits. -/
def settle (s : State) : State :=
  runReady s.stepBound s

/-- What is due at some moment, with the tasks that wait for it. -/
def alarms (s : State) : List (Alarm × Task) :=
  let ofWorker : Nat × Worker → Option (Alarm × Task) := fun (w, worker) ↦
    match worker.activity with
    | .idle => some (worker.idle, .worker w)
    | activity => activity.alarm?.map fun alarm ↦ (alarm, .worker w)
  let ofCaller : Nat × Caller → Option (Alarm × Task) := fun (c, caller) ↦
    if caller.phase.isEnded then none else caller.limit.map fun alarm ↦ (alarm, .caller c)
  (s.workers.toList.filterMap ofWorker ++ s.callers.toList.filterMap ofCaller).filter
    fun (alarm, _) ↦ s.now < alarm.time

/-- The next moment at which something is due. -/
def nextAlarm? (s : State) : Option Nat :=
  (s.alarms.map (·.1.time)).min?

/-- The tasks that wait for something which is due at a moment, in the order of their tickets. -/
def dueAt (s : State) (time : Nat) : List Task :=
  let due := s.alarms.filter (·.1.time = time)
  (due.mergeSort fun a b ↦ a.1.ticket ≤ b.1.ticket).map (·.2)

/-- Move the clock to the next moment at which something is due, and let it run. A caller in the
foreground runs first. -/
def jump (s : State) (time : Nat) : State :=
  let due := s.dueAt time
  let s := due.foldl wake { s with now := time }
  match s.foreground with
  | some c =>
    if s.isSummoned then { s with running := some (.caller c), isSummoned := false } else s
  | none => s

/-- Run and move the clock until some condition holds or nothing will ever be due. -/
def runUntil (finished : State → Bool) : (fuel : Nat) → State → State
  | 0, s => s
  | fuel + 1, s =>
    let s := s.settle
    if finished s then s
    else match s.nextAlarm? with
      | none => s
      | some time => runUntil finished fuel (s.jump time)

/-- More jumps than can be needed before every call is over. -/
def jumpBound (s : State) : Nat :=
  64 * (s.callers.size + s.workers.size + 2) * (s.policy.sync.attempts.toNat + 8)

/-- Run until a moment. -/
def runTo (time : Nat) : (fuel : Nat) → State → State
  | 0, s => s
  | fuel + 1, s =>
    let s := s.settle
    match s.nextAlarm? with
    | none => { s with now := max s.now time }
    | some next =>
      if next ≤ time then runTo time fuel (s.jump next) else { s with now := max s.now time }

end Signatory.Service.State
