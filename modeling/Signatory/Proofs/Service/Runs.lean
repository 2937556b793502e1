import Signatory.Proofs.Service.Steps

/-!
# Runs

A run of a service is any sequence of steps and of uses from outside: calls begin, callers are
dropped, workers are removed, the service is shut down, others use the ledgers, and time passes. The
order in which tasks run is left open, so whatever holds of every run holds of those that take the
tasks in turn. A property of states without their schedule holds after every run if it holds at the
start and every change and every use preserves it.
-/

namespace Signatory.Service

namespace State

/-- What happens next in a run. -/
inductive Next : State → State → Prop
  | step {s t : State} (taken : s.step = some t) : Next s t
  | dispatch (s : State) (key : String) (request : Request) :
    Next s (s.addCaller { key, request }).2
  | drop (s : State) (c : CallerId) : Next s (s.dropCaller c)
  | remove (s : State) (key : String) : Next s (s.remove key).2
  | shutdown (s : State) : Next s s.shutdown
  | ledger (s : State) (name : String) (l : Ledger.Memory) : Next s (s.setLedger name l)
  | wait (s : State) {time : Nat} (later : s.now ≤ time) : Next s { s with now := time }
  | schedule {s t : State} (same : t.bare = s.bare) : Next s t

/-- Any sequence of steps and uses. -/
abbrev Run : State → State → Prop :=
  Relation.ReflTransGen Next

/-- Whether a state can come about in a run of a service that nobody has used. -/
def Reachable (s : State) : Prop :=
  ∃ policy connector, Run (start policy connector) s

/-- What a use from outside does. -/
inductive Use (s : State) : State → Prop
  /-- Nothing but the schedule changes. -/
  | rest : Use s s
  | dispatch (key : String) (request : Request) :
    Use s { s with callers := s.callers.push { key, request } }
  | drop {c : CallerId} {caller : Caller} (found : s.callers.get? c = some caller)
    (live : caller.phase.isEnded = false) :
    Use s { s with callers := s.callers.set c { caller with dropped := true } }
  | remove {key : String} {w : WorkerId} (named : s.find? key = some w) :
    Use s
      { s with
        directory := s.directory.filter (·.1 ≠ key)
        stats := { s.stats with removed := s.stats.removed + 1 }
        workers := s.workers.update w fun y ↦ { y with cancelled := true }
        journal := ⟨s.now, .removed w⟩ :: s.journal }
  | notFound :
    Use s { s with stats := { s.stats with notFound := s.stats.notFound + 1 } }
  | shutdown {workers : Table Worker} (serving : s.isShutDown = false)
    (cancelled : ∀ w, workers.get? w =
      (s.workers.get? w).map fun y ↦ { y with cancelled := true }) :
    Use s
      { s with
        isShutDown := true
        workers
        journal := ⟨s.now, .shutDown⟩ :: s.journal }
  | ledger (name : String) (l : Ledger.Memory) : Use s (s.setLedger name l)
  | wait {time : Nat} (later : s.now ≤ time) : Use s { s with now := time }

/-- What is told to a worker that is to leave. -/
theorem bare_cancel (s : State) (w : WorkerId) :
    (s.cancel w).bare =
      { s.bare with
        workers := s.bare.workers.update w fun y ↦ { y with cancelled := true } } := by
  rw [cancel, bare_wakeWorker, bare_updateWorker]

/-- Telling several workers to leave changes nothing but them. -/
theorem bare_cancelAll (ws : List WorkerId) (s : State) :
    ∃ workers, (ws.foldl cancel s).bare = { s.bare with workers } ∧
      ∀ v, workers.get? v =
        if v ∈ ws then (s.workers.get? v).map fun y ↦ { y with cancelled := true }
        else s.workers.get? v := by
  induction ws generalizing s with
  | nil => exact ⟨s.workers, rfl, fun v ↦ (if_neg List.not_mem_nil).symm⟩
  | cons w ws ih =>
    obtain ⟨workers, same, told⟩ := ih (s.cancel w)
    rw [bare_cancel] at same
    refine ⟨workers, same, fun v ↦ ?_⟩
    have first : (s.cancel w).workers.get? v =
        (s.bare.workers.update w fun y ↦ { y with cancelled := true }).get? v := by
      change (s.cancel w).bare.workers.get? v = _
      rw [bare_cancel]
    rw [told v, first, Table.get?_update]
    change _ = if v ∈ w :: ws then (s.bare.workers.get? v).map _ else s.bare.workers.get? v
    by_cases here : w = v
    · rw [if_pos here, if_pos (List.mem_cons.mpr (.inl here.symm)), Option.map_map]
      exact ite_self _
    · simp only [if_neg here, List.mem_cons, Ne.symm here, false_or]

/-- What dropping a caller does. -/
theorem use_dropCaller (s : State) (c : CallerId) : Use s.bare (s.dropCaller c).bare := by
  unfold dropCaller
  split
  next => exact .rest
  next going =>
    rw [bare_wake, bare_updateCaller]
    cases known : s.bare.callers.get? c with
    | none =>
      rw [Table.update_self fun caller found ↦ absurd (known.symm.trans found) (by simp)]
      exact .rest
    | some caller =>
      rw [Table.update_eq_set known]
      refine .drop known ?_
      unfold hasEnded ending? at going
      rw [show s.callers.get? c = some caller from known] at going
      cases phase : caller.phase with
      | ended e => simp [phase] at going
      | _ => rfl

/-- What removing a worker does that is named for its key. -/
theorem bare_remove {s : State} {key : String} {w : WorkerId} (named : s.find? key = some w) :
    (s.remove key).2.bare =
      { s.bare with
        directory := s.directory.filter (·.1 ≠ key)
        stats := { s.stats with removed := s.stats.removed + 1 }
        workers := s.workers.update w fun y ↦ { y with cancelled := true }
        journal := ⟨s.now, .removed w⟩ :: s.journal } := by
  have named' : s.bare.find? key = some w := named
  unfold State.remove
  rw [named]
  dsimp only
  rw [bare_count, bare_log, bare_cancel, bare_detach, without, if_pos named']
  rfl

/-- What removing the worker of a key does. -/
theorem use_remove (s : State) (key : String) : Use s.bare (s.remove key).2.bare := by
  cases named : s.find? key with
  | none =>
    unfold State.remove
    rw [named]
    exact .notFound
  | some w =>
    rw [bare_remove named]
    exact .remove named

/-- What shutting a service down does. -/
theorem use_shutdown (s : State) : Use s.bare s.shutdown.bare := by
  unfold State.shutdown
  split
  next => exact .rest
  next serving =>
    rw [Bool.not_eq_true] at serving
    obtain ⟨workers, same, told⟩ :=
      bare_cancelAll (List.range s.workers.size) ({ s with isShutDown := true }.log .shutDown)
    change Use s.bare
      ((List.range s.workers.size).foldl cancel ({ s with isShutDown := true }.log .shutDown)).bare
    rw [same]
    refine .shutdown serving fun w ↦ ?_
    rw [told w]
    split
    next => rfl
    next outside =>
      have missing : s.workers.get? w = none :=
        Table.get?_of_le (Nat.not_lt.mp fun inside ↦ outside (List.mem_range.mpr inside))
      change s.workers.get? w = _
      rw [missing]
      exact congrArg (Option.map _) missing.symm

/-- What happens next is a step or one of the uses that are listed. -/
theorem Next.step_or_use {s t : State} (next : Next s t) :
    s.step = some t ∨ Use s.bare t.bare := by
  cases next with
  | step taken => exact .inl taken
  | dispatch key request => exact .inr (.dispatch key request)
  | drop c => exact .inr (use_dropCaller s c)
  | remove key => exact .inr (use_remove s key)
  | shutdown => exact .inr (use_shutdown s)
  | ledger name l => exact .inr (.ledger name l)
  | wait later => exact .inr (.wait later)
  | schedule same => exact .inr (same ▸ .rest)

/-- Whatever happens next is listed. -/
theorem Next.use {s t : State} (next : Next s t) :
    (∃ τ, Changes τ s.bare t.bare) ∨ Use s.bare t.bare := by
  rcases next.step_or_use with taken | use
  · rcases step_changes taken with ⟨τ, -, changes⟩ | same
    · exact .inl ⟨τ, changes⟩
    · exact .inr (same ▸ .rest)
  · exact .inr use

variable {P : State → Prop}

/-- What every change preserves is preserved by several. -/
theorem Changes.preserve (change : ∀ {s τ t}, P s → Change s τ t → P t) {s t : State} {τ : Task}
    (start : P s) (changes : Changes τ s t) : P t := by
  induction changes with
  | refl => exact start
  | tail _ next ih => exact change ih next

/-- What every change and every use preserves is preserved by a run. -/
theorem Run.preserve (change : ∀ {s τ t}, P s → Change s τ t → P t)
    (use : ∀ {s t}, P s → Use s t → P t) {s t : State} (start : P s.bare) (run : Run s t) :
    P t.bare := by
  induction run with
  | refl => exact start
  | tail _ next ih =>
    rcases next.use with ⟨τ, changes⟩ | used
    · exact Changes.preserve change ih changes
    · exact use ih used

/-- What holds at the start and is preserved by every change and every use holds of every state that
can come about. -/
theorem Reachable.invariant (begins : ∀ policy connector, P (start policy connector))
    (change : ∀ {s τ t}, P s → Change s τ t → P t) (use : ∀ {s t}, P s → Use s t → P t) {s : State}
    (h : s.Reachable) : P s.bare := by
  obtain ⟨policy, connector, run⟩ := h
  have start : P (start policy connector).bare := begins policy connector
  exact Run.preserve change use start run

/-- A run goes on from a state that can come about. -/
theorem Reachable.run {s t : State} (h : s.Reachable) (run : Run s t) : t.Reachable := by
  obtain ⟨policy, connector, before⟩ := h
  exact ⟨policy, connector, before.trans run⟩

/-- Schedules do not matter for what can come about. -/
theorem Reachable.bare {s : State} (h : s.Reachable) : s.bare.Reachable :=
  h.run (.single (.schedule rfl))

/-- Moving the clock changes the time and the schedule. -/
@[simp] theorem bare_jump (s : State) (time : Nat) :
    (s.jump time).bare = { s.bare with now := time } := by
  have moved := bare_wakeAll { s with now := time } (s.dueAt time)
  unfold jump
  dsimp only
  split
  next =>
    split
    next => exact moved
    next => exact moved
  next => exact moved

/-- The next moment at which something is due lies ahead. -/
theorem now_lt_nextAlarm {s : State} {time : Nat} (next : s.nextAlarm? = some time) :
    s.now < time := by
  have due := List.min?_mem next
  obtain ⟨entry, listed, rfl⟩ := List.mem_map.mp due
  have later := (List.mem_filter.mp listed).2
  exact of_decide_eq_true later

/-- Moving the clock to the next moment at which something is due is part of a run. -/
theorem Run.jump {s : State} {time : Nat} (next : s.nextAlarm? = some time) :
    Run s (s.jump time) := by
  refine .tail (.single (.wait s (Nat.le_of_lt (now_lt_nextAlarm next)))) (.schedule ?_)
  rw [bare_jump]
  rfl

/-- Taking steps while any task is ready is a run. -/
theorem Run.runReady (fuel : Nat) (s : State) : Run s (State.runReady fuel s) := by
  induction fuel generalizing s with
  | zero => exact .refl
  | succ fuel ih =>
    unfold State.runReady
    split
    next => exact .refl
    next t taken => exact .head (.step taken) (ih t)

/-- Running every task until it waits is a run. -/
theorem Run.settle (s : State) : Run s s.settle :=
  Run.runReady _ s

/-- Running until a condition holds is a run. -/
theorem Run.runUntil (finished : State → Bool) (fuel : Nat) (s : State) :
    Run s (s.runUntil finished fuel) := by
  induction fuel generalizing s with
  | zero => exact .refl
  | succ fuel ih =>
    unfold State.runUntil
    dsimp only
    have settled := Run.settle s
    split
    next => exact settled
    next =>
      split
      next => exact settled
      next time next => exact (settled.trans (Run.jump next)).trans (ih _)

/-- Running until a moment is a run. -/
theorem Run.runTo (time fuel : Nat) (s : State) : Run s (s.runTo time fuel) := by
  have pass (u : State) : Run u { u with now := max u.now time } :=
    .single (.wait u (Nat.le_max_left u.now time))
  induction fuel generalizing s with
  | zero => exact .refl
  | succ fuel ih =>
    unfold State.runTo
    dsimp only
    have settled := Run.settle s
    split
    next => exact settled.trans (pass _)
    next next due =>
      split
      next => exact (settled.trans (Run.jump due)).trans (ih _)
      next => exact settled.trans (pass _)

/-- Letting time pass is a run. -/
theorem Run.sleep (s : State) (ms : Nat) : Run s (s.sleep ms) :=
  (Run.runTo _ _ s).trans (Run.settle _)

/-- Waiting for a call to end is a run. -/
theorem Run.join (s : State) (c : CallerId) : Run s (s.join c) :=
  (Run.runUntil _ _ s).trans (Run.settle _)

/-- Starting a call that runs on its own is a run. -/
theorem Run.spawnCall (s : State) (key : String) (request : Request) :
    Run s (s.spawnCall { key, request }).2 :=
  .tail (.single (.dispatch s key request)) (.schedule (bare_wake _ _))

/-- Making a call and waiting for it to end is a run. -/
theorem Run.call (s : State) (key : String) (request : Request) :
    Run s (s.call { key, request }).2 := by
  have begins (u : State) (c : CallerId) :
      Next u { u with foreground := some c, running := some (.caller c) } :=
    .schedule rfl
  have ends (u : State) : Next u { u with foreground := none, isSummoned := false } :=
    .schedule rfl
  exact .tail (.trans (.tail (.single (.dispatch s key request)) (begins _ _)) (Run.join _ _))
    (ends _)

end State

end Signatory.Service
