import Signatory.Proofs.Service.Creation
import Signatory.Proofs.Service.Labour
import Signatory.Proofs.Service.Watch

/-!
# Everything comes to rest

A service that is left alone comes to rest: each step, and each move of the clock, brings nearer the
state in which nothing is left to do. There every worker has left or has died and every call is
over.
-/

namespace Signatory.Service.State

variable {front : List CallerId} {s t u : State} {τ : Task} {w : WorkerId} {y z : Worker}
  {c : CallerId} {x old : Caller} {time : Nat}

section Emptying

/-- Nothing is in a mailbox that is closed. -/
def Emptied (s : State) : Prop :=
  ∀ w y, s.workers.get? w = some y → y.mailbox.closed = true → y.mailbox.queue = []

/-- Nothing is in a mailbox that is closed when one worker has been changed. -/
theorem emptied_set {v : WorkerId} {worker : Worker} (h : s.Emptied)
    (found : s.workers.get? v = some y)
    (empty : worker.mailbox.closed = true → worker.mailbox.queue = []) (w : WorkerId) (z : Worker)
    (there : (s.workers.set v worker).get? w = some z) (closed : z.mailbox.closed = true) :
    z.mailbox.queue = [] := by
  rcases Table.of_set found there with ⟨-, rfl⟩ | ⟨-, there⟩
  · exact empty closed
  · exact h w z there closed

/-- Nothing comes into a mailbox that is closed by a change. -/
theorem Change.emptied (h : s.Emptied) (change : Change s τ t) : t.Emptied := by
  have take {w : WorkerId} {worker : Worker} {e : Envelope} {rest : Mailbox}
      (takes : Takes s w worker e rest) (closed : rest.grant.2.closed = true) :
      rest.grant.2.queue = [] := by
    rw [Mailbox.grant_closed, Mailbox.closed_of_pop? takes.popped] at closed
    have empty := h w worker takes.found closed
    rw [Mailbox.queue_of_pop? takes.popped] at empty
    exact absurd empty (List.cons_ne_nil _ _)
  cases change with
  | leave found => exact emptied_set h found fun _ ↦ rfl
  | die found => exact emptied_set h found fun _ ↦ rfl
  | skip takes => exact emptied_set h takes.found (take takes)
  | misroute takes => exact emptied_set h takes.found (take takes)
  | connect accepts => exact emptied_set h accepts.found (take accepts.toTakes)
  | lookup accepts => exact emptied_set h accepts.found (take accepts.toTakes)
  | serve accepts => exact emptied_set h accepts.found (take accepts.toTakes)
  | @finish w worker _ _ _ found => exact emptied_set h found (h w worker found)
  | @again w worker _ _ _ _ _ _ found => exact emptied_set h found (h w worker found)
  | spawn =>
    intro w z there closed
    rcases Table.of_push there with ⟨-, rfl, -⟩ | there
    · exact absurd closed (by simp)
    · exact h w z there closed
  | push offers found opened =>
    exact emptied_set h found fun closed ↦ absurd (opened.symm.trans closed) (by simp)
  | @suspend _ _ w worker offers found => exact emptied_set h found (h w worker found)
  | occupy known suspended found opened =>
    exact emptied_set h found fun closed ↦ absurd (opened.symm.trans closed) (by simp)
  | withdraw =>
    intro w z there closed
    obtain ⟨y, found, ⟨-, rfl⟩ | ⟨-, rfl⟩⟩ := Table.of_update there
    · rw [Mailbox.grant_closed] at closed
      rw [Mailbox.grant_queue]
      exact h w y found closed
    · exact h w z found closed
  | _ => exact h

/-- Nothing comes into a mailbox that is closed by a use. -/
theorem Use.emptied (h : s.Emptied) (use : Use s t) : t.Emptied := by
  intro w z there closed
  obtain ⟨y, found, rfl | rfl⟩ := use.of_worker there
  · exact h w _ found closed
  · exact h w y found closed

theorem Reachable.emptied (h : s.Reachable) : s.Emptied := by
  have kept := Reachable.invariant (P := Emptied)
    (fun _ _ _ _ found ↦ absurd ((Table.get?_empty _).symm.trans found) (by simp))
    (fun h change ↦ change.emptied h) (fun h use ↦ use.emptied h) h
  exact kept

end Emptying

section Resting

/-- A worker that comes to do something else moves. -/
theorem Unmoved.activity {f : Worker → Worker} (h : Unmoved s t)
    (found : s.workers.get? w = some y) (workers : t.workers = s.workers.update w f) :
    (f y).activity = y.activity :=
  (h.worker found (workers ▸ Table.get?_update_self found)).1

/-- A caller who comes to do something else moves. -/
theorem Unmoved.phase {f : Caller → Caller} (h : Unmoved s t) (found : s.callers.get? c = some x)
    (callers : t.callers = s.callers.update c f) :
    (f x).phase = x.phase ∧ (f x).tries = x.tries ∧ (f x).limit = x.limit :=
  h.caller found (callers ▸ Table.get?_update_self found)

/-- A worker that leaves moves. -/
theorem not_unmoved_leave {reason : ExitReason} (found : s.workers.get? w = some y)
    (idle : y.activity = .idle) : ¬ Unmoved s (s.leave w y reason) := by
  intro unmoved
  have workers := congrArg State.workers (bare_leave s w y reason)
  have same := unmoved.activity found workers
  exact absurd (idle.symm.trans same.symm) (by simp)

/-- A worker that dies moves. -/
theorem not_unmoved_die {e : Envelope} (found : s.workers.get? w = some y)
    (hand : y.activity.hand? = some e) : ¬ Unmoved s (s.die w y e) := by
  intro unmoved
  have workers := congrArg State.workers (bare_die s w y e)
  have same := unmoved.activity found workers
  rw [← same] at hand
  exact absurd hand (by simp [Activity.hand?])

/-- A worker that answers a request moves. -/
theorem not_unmoved_complete {e : Envelope} {done : Result × Option Identity}
    (found : s.workers.get? w = some y) (hand : y.activity.hand? = some e)
    (workers : u.workers = s.workers) : ¬ Unmoved s (u.complete w e done) := by
  intro unmoved
  have after := congrArg State.workers (bare_complete u w e done)
  have same := unmoved.activity found (after.trans (congrArg (Table.update · w _) workers))
  rw [← same] at hand
  exact absurd hand (by simp [Activity.hand?])

/-- A worker that makes a lookup moves. -/
theorem not_unmoved_lookedUp {e : Envelope} {attempt : Nat} {alarm : Alarm}
    (found : s.workers.get? w = some y) (syncing : y.activity = .syncing e attempt alarm) :
    ¬ Unmoved s (s.lookedUp w y e attempt) := by
  have hand : y.activity.hand? = some e := by
    rw [syncing]
    rfl
  unfold lookedUp
  dsimp only
  split
  next => exact not_unmoved_complete found hand rfl
  next i known =>
    have looked := congrArg State.workers (bare_lookup s i.ledger i.address)
    generalize (s.lookup i.ledger i.address).2 = u at looked ⊢
    split
    next => exact not_unmoved_complete found hand looked
    next =>
      intro unmoved
      have after := congrArg State.workers
        (bare_beginLookup u w e (attempt + 1) u.policy.sync.backoff)
      have same := unmoved.activity found (after.trans (congrArg (Table.update · w _) looked))
      rw [syncing] at same
      exact absurd (Activity.syncing.inj same).2.1 (Nat.succ_ne_self _)

/-- A worker that takes an envelope keeps its mailbox, or closes it. -/
theorem mailbox_take {e : Envelope} (found : s.workers.get? w = some y)
    (there : (s.take w y e).workers.get? w = some z) :
    z.mailbox.closed = true ∨ z.mailbox = y.mailbox := by
  unfold take at there
  split at there
  next => exact .inr (congrArg _ (Option.some.inj (found.symm.trans there)).symm)
  next =>
    split at there
    next => exact .inl (closed_die there)
    next =>
      dsimp only at there
      unfold accept at there
      split at there
      next =>
        obtain ⟨x, here, mailbox⟩ := mailbox_handle there
        have here : (s.workers.update w _).get? w = some x := here
        obtain rfl := Option.some.inj ((Table.get?_update_self found).symm.trans here)
        exact .inr mailbox
      next => exact .inl (closed_leave there)

/-- A worker that finds an envelope when it looks for something to do takes it. -/
theorem queue_look {e : Envelope} {rest : Mailbox} (found : s.workers.get? w = some y)
    (kept : y.cancelled = false) (popped : y.mailbox.pop? = some (e, rest))
    (empty : (s.look w y).Emptied) (there : (s.look w y).workers.get? w = some z) :
    z.mailbox.queue ≠ y.mailbox.queue := by
  have shorter (less : z.mailbox.queue = [] ∨ z.mailbox.queue = rest.queue) :
      z.mailbox.queue ≠ y.mailbox.queue := by
    rw [Mailbox.queue_of_pop? popped]
    rcases less with none | less
    · simp [none]
    · simp [less]
  have taken : ((s.updateWorker w fun y ↦ { y with mailbox := rest }).grantPlace w).workers =
      s.workers.set w { y with mailbox := rest.grant.2 } := by
    have found : s.bare.workers.get? w = some y := found
    have same := bare_grantPlace (s.updateWorker w fun y ↦ { y with mailbox := rest }) w
    rw [bare_updateWorker, Table.update_eq_set found, Table.update_set] at same
    exact congrArg State.workers same
  unfold look at empty there
  rw [kept, if_neg Bool.false_ne_true, popped] at empty there
  dsimp only at empty there
  generalize (s.updateWorker w fun y ↦ { y with mailbox := rest }).grantPlace w = u
    at taken empty there
  have refound : u.workers.get? w = some { y with mailbox := rest.grant.2 } := by
    rw [taken]
    exact Table.get?_set_self found
  rw [refound] at empty there
  rcases mailbox_take refound there with closed | same
  · exact shorter (.inl (empty w z there closed))
  · exact shorter (.inr (by rw [same, Mailbox.grant_queue]))

/-- A worker that looks for something to do, and then does the same, rests. -/
theorem rest_of_unmoved_look (found : s.workers.get? w = some y) (idle : y.activity = .idle)
    (later : s.Later (s.look w y)) (empty : (s.look w y).Emptied)
    (unmoved : Unmoved s (s.look w y)) : s.look w y = s.rest := by
  cases told : y.cancelled with
  | true =>
    unfold look at unmoved
    rw [if_pos told] at unmoved
    exact absurd unmoved (not_unmoved_leave found idle)
  | false =>
    cases popped : y.mailbox.pop? with
    | some taken =>
      obtain ⟨z, there, -⟩ := later.workers w y found
      exact absurd (unmoved.worker found there).2 (queue_look found told popped empty there)
    | none =>
      unfold look at unmoved ⊢
      rw [told, if_neg Bool.false_ne_true, popped] at unmoved ⊢
      dsimp only at unmoved ⊢
      split
      next alone =>
        rw [if_pos alone] at unmoved
        exact absurd unmoved (not_unmoved_leave found idle)
      next accompanied =>
        rw [if_neg accompanied] at unmoved
        split
        next late =>
          rw [if_pos late] at unmoved
          exact absurd unmoved (not_unmoved_leave found idle)
        next => rfl

/-- A worker rests if it does the same after a step. -/
theorem rest_of_unmoved_worker (later : s.Later (s.stepWorker w))
    (empty : (s.stepWorker w).Emptied) (unmoved : Unmoved s (s.stepWorker w)) :
    s.stepWorker w = s.rest := by
  unfold stepWorker at later empty unmoved ⊢
  split
  next missing => rfl
  next y found =>
    rw [found] at later empty unmoved
    dsimp only at later empty unmoved
    split
    next idle =>
      rw [idle] at later empty unmoved
      exact rest_of_unmoved_look found idle later empty unmoved
    next e k outcome alarm connecting =>
      rw [connecting] at unmoved
      dsimp only at unmoved
      have hand : y.activity.hand? = some e := by
        rw [connecting]
        rfl
      split
      next due =>
        rw [if_pos due] at unmoved
        cases outcome with
        | crash => exact absurd unmoved (not_unmoved_die found hand)
        | refused fault => exact absurd unmoved (not_unmoved_complete found hand rfl)
        | place place =>
          have same := congrArg State.workers (bare_ensureLedger s place)
          exact absurd unmoved (not_unmoved_complete found hand same)
      next => rfl
    next e attempt alarm syncing =>
      rw [syncing] at unmoved
      dsimp only at unmoved
      split
      next due =>
        rw [if_pos due] at unmoved
        exact absurd unmoved (not_unmoved_lookedUp found syncing)
      next => rfl
    next => rfl
    next => rfl

/-- A caller whose call ends moves. -/
theorem not_unmoved_conclude {ending : Ending} (found : s.callers.get? c = some x)
    (live : x.phase.isEnded = false) (callers : u.callers = s.callers) :
    ¬ Unmoved s (u.conclude c ending) := by
  intro unmoved
  have after := congrArg State.callers (bare_conclude u c ending)
  have same := unmoved.phase found (after.trans (congrArg (Table.update · c _) callers))
  rw [← same.1] at live
  exact absurd live (by simp [Phase.isEnded])

/-- A caller who looks for another worker moves. -/
theorem not_unmoved_retry (found : s.callers.get? c = some x)
    (other : x.phase ≠ .seeking ∨ x.tries ≠ 0) (callers : u.callers = s.callers) :
    ¬ Unmoved s (u.retry c) := by
  intro unmoved
  have after := congrArg State.callers (bare_retry u c)
  have same := unmoved.phase found (after.trans (congrArg (Table.update · c _) callers))
  rcases other with moved | some_try
  · exact moved same.1.symm
  · have fewer : x.tries - 1 = x.tries := same.2.1
    omega

/-- Leaving a mailbox changes nothing about the callers. -/
theorem callers_withdraw (s : State) (c : CallerId) (x : Caller) :
    (s.withdraw c x).callers = s.callers := by
  by_cases suspended : ∃ w, x.phase = .suspended w
  · obtain ⟨w, suspended⟩ := suspended
    have same := congrArg State.callers (bare_withdraw s w c suspended)
    exact same
  · rw [withdraw_of_ne s c fun w phase ↦ suspended ⟨w, phase⟩]

/-- A caller who finds a mailbox closed moves. -/
theorem not_unmoved_turnedAway (filed : s.Filed) (found : s.callers.get? c = some x)
    (other : x.phase ≠ .seeking ∨ x.tries ≠ 0) (callers : u.callers = s.callers) :
    ¬ Unmoved s (u.turnedAway c x w) := by
  unfold turnedAway
  rw [filed.indirect found]
  have same := congrArg State.callers (bare_detach u w x.key)
  exact not_unmoved_retry found other (same.trans callers)

/-- A caller who waits rests if it does the same after a step. -/
theorem rest_of_unmoved_pend (found : s.callers.get? c = some x)
    (live : x.phase.isEnded = false) (unmoved : Unmoved s (s.pend c x)) : s.pend c x = s.rest := by
  unfold pend at unmoved ⊢
  split
  next limit direct limited =>
    rw [direct, limited] at unmoved
    dsimp only at unmoved
    cases set : x.limit with
    | none =>
      rw [set] at unmoved
      dsimp only at unmoved
      split at unmoved
      next =>
        exact absurd unmoved (not_unmoved_conclude found live (callers_withdraw _ c x))
      next =>
        have same := (unmoved.phase (t := ((s.alarmAfter limit).2.updateCaller c _).rest) found rfl).2.2
        exact absurd (same.trans set) (by simp)
    | some alarm =>
      rw [set] at unmoved
      dsimp only at unmoved ⊢
      split
      next late =>
        rw [if_pos late] at unmoved
        exact absurd unmoved (not_unmoved_conclude found live (callers_withdraw s c x))
      next early =>
        have same : s.callers.update c (fun x ↦ { x with limit := some alarm }) = s.callers := by
          apply Table.update_self
          intro x' found'
          obtain rfl := Option.some.inj (found.symm.trans found')
          rw [← set]
        rw [updateCaller, same]
  next => rfl

/-- A caller who offers its request to a worker moves. -/
theorem not_unmoved_offer (filed : s.Filed) (found : s.callers.get? c = some x)
    (seeking : x.phase = .seeking) (tries : x.tries ≠ 0) (callers : u.callers = s.callers)
    (w : WorkerId) : ¬ Unmoved s (u.offer c x w) := by
  have turned : ¬ Unmoved s ((u.log (.offered c w)).turnedAway c x w) :=
    not_unmoved_turnedAway filed found (.inr tries) callers
  have moves {t : State} {p : Phase} (apart : p ≠ .seeking)
      (after : t.callers = u.callers.update c fun x ↦ { x with phase := p }) : ¬ Unmoved s t := by
    intro unmoved
    have same := (unmoved.phase found (after.trans (congrArg (Table.update · c _) callers))).1
    exact apart (same.trans seeking)
  unfold offer
  dsimp only
  split
  next => exact turned
  next =>
    split
    next => exact turned
    next =>
      split
      next =>
        have after := congrArg State.callers (bare_enqueue (u.log (.offered c w)) w c x Mailbox.push)
        exact moves (p := .awaiting w) (by simp) after
      next => exact moves (p := .suspended w) (by simp) rfl

/-- A caller who looks for a worker moves. -/
theorem not_unmoved_seek (filed : s.Filed) (found : s.callers.get? c = some x)
    (seeking : x.phase = .seeking) : ¬ Unmoved s (s.seek c x) := by
  have live : x.phase.isEnded = false := by
    rw [seeking]
    rfl
  have new (tries : x.tries ≠ 0) : ¬ Unmoved s (s.offerNew c x) := by
    unfold offerNew
    split
    next => exact not_unmoved_conclude found live rfl
    next =>
      have callers := congrArg State.callers (bare_spawn s x.key)
      exact not_unmoved_offer (u := (s.spawn x.key).2) filed found seeking tries callers _
  unfold seek
  split
  next => exact not_unmoved_conclude found live rfl
  next tries =>
    split
    next => exact not_unmoved_conclude found live rfl
    next =>
      split
      next =>
        split
        next => exact new tries
        next => exact not_unmoved_offer filed found seeking tries rfl _
      next =>
        split
        next => exact new tries
        next => exact not_unmoved_conclude found live rfl

/-- A caller who has a reply moves. -/
theorem not_unmoved_receive {r : Reply} (filed : s.Filed) (found : s.callers.get? c = some x)
    (replied : x.phase = .replied w r) : ¬ Unmoved s (s.receive c x w r) := by
  have live : x.phase.isEnded = false := by
    rw [replied]
    rfl
  unfold receive
  rw [filed.indirect found]
  cases r with
  | answered r => exact not_unmoved_conclude found live rfl
  | handedBack => exact not_unmoved_retry found (.inl (by simp [replied])) rfl
  | lost =>
    have same := congrArg State.callers (bare_detach s w x.key)
    dsimp only
    split
    next => exact not_unmoved_conclude found live same
    next => exact not_unmoved_conclude found live same

/-- A caller who is suspended rests if it does the same after a step. -/
theorem rest_of_unmoved_resume (filed : s.Filed) (found : s.callers.get? c = some x)
    (suspended : x.phase = .suspended w) (unmoved : Unmoved s (s.resume c x w)) :
    s.resume c x w = s.rest := by
  unfold resume at unmoved ⊢
  split
  next missing =>
    rw [missing] at unmoved
    exact absurd unmoved (not_unmoved_turnedAway filed found (.inl (by simp [suspended])) rfl)
  next y there =>
    rw [there] at unmoved
    dsimp only at unmoved
    split
    next closed =>
      rw [if_pos closed] at unmoved
      exact absurd unmoved (not_unmoved_turnedAway filed found (.inl (by simp [suspended])) rfl)
    next opened =>
      rw [if_neg opened] at unmoved
      split
      next place =>
        rw [if_pos place] at unmoved
        have callers := congrArg State.callers (bare_enqueue s w c x Mailbox.occupy)
        have same := (unmoved.phase found callers).1
        exact absurd (suspended.symm.trans same.symm) (by simp)
      next placeless =>
        rw [if_neg placeless] at unmoved
        exact rest_of_unmoved_pend found (by rw [suspended]; rfl) unmoved

/-- A caller rests if it does the same after a step. -/
theorem rest_of_unmoved_caller (filed : s.Filed) (unmoved : Unmoved s (s.stepCaller c)) :
    s.stepCaller c = s.rest := by
  unfold stepCaller at unmoved ⊢
  split
  next => rfl
  next x found =>
    rw [found] at unmoved
    dsimp only at unmoved
    split
    next => rfl
    next live =>
      rw [if_neg live] at unmoved
      rw [Bool.not_eq_true] at live
      split
      next dropped =>
        rw [if_pos dropped] at unmoved
        exact absurd unmoved (not_unmoved_conclude found live (callers_withdraw s c x))
      next kept =>
        rw [if_neg kept] at unmoved
        split
        next fresh =>
          rw [fresh] at unmoved
          unfold begin at unmoved
          rw [filed.indirect found] at unmoved
          have same := (unmoved.phase found (f := fun x ↦ { x with phase := .seeking }) rfl).1
          exact absurd (fresh.symm.trans same.symm) (by simp)
        next seeking =>
          rw [seeking, filed.indirect found] at unmoved
          exact absurd unmoved (not_unmoved_seek filed found seeking)
        next w suspended =>
          rw [suspended] at unmoved
          exact rest_of_unmoved_resume filed found suspended unmoved
        next w awaiting =>
          rw [awaiting] at unmoved
          exact rest_of_unmoved_pend found live unmoved
        next w r replied =>
          rw [replied] at unmoved
          exact absurd unmoved (not_unmoved_receive filed found replied)
        next => rfl

end Resting

section Ticking

/-- Take a step, or move the clock to the next moment at which something is due. -/
def tick (s : State) : Option State :=
  match s.step with
  | some t => some t
  | none => s.nextAlarm?.map s.jump

/-- What comes about by itself. -/
abbrev Ticks : State → State → Prop :=
  Relation.ReflTransGen fun s t ↦ s.tick = some t

/-- How many times a task has to be chosen or has to rest, at most, before every task waits. -/
def pace (s : State) : Nat :=
  s.running.toList.length + 2 * s.ready.length +
    if s.foreground.isSome ∧ s.isSummoned = true then 2 else 0

/-- What comes about by itself in a session is part of the session. -/
theorem Session.tick {policy : Policy} {connector : Ledger.Connector}
    (h : Session policy connector front s) (ticks : s.tick = some t) :
    Session policy connector front t := by
  unfold State.tick at ticks
  split at ticks
  next taken => exact Option.some.inj ticks ▸ h.step taken
  next idle =>
    obtain ⟨time, next, rfl⟩ := Option.map_eq_some_iff.mp ticks
    exact h.jump idle next

theorem Session.ticks {policy : Policy} {connector : Ledger.Connector}
    (h : Session policy connector front s) (ticks : Ticks s t) :
    Session policy connector front t := by
  induction ticks with
  | refl => exact h
  | tail _ tick ih => exact ih.tick tick

/-- What comes about by itself is part of a run. -/
theorem run_of_tick (ticks : s.tick = some t) : Run s t := by
  unfold tick at ticks
  split at ticks
  next taken => exact .single (.step (Option.some.inj ticks ▸ taken))
  next idle =>
    obtain ⟨time, next, rfl⟩ := Option.map_eq_some_iff.mp ticks
    exact Run.jump next

theorem Ticks.run (ticks : Ticks s t) : Run s t := by
  induction ticks with
  | refl => exact .refl
  | tail _ tick ih => exact ih.trans (run_of_tick tick)

/-- No worker is created by what another does. -/
theorem Change.size_of_worker (change : Change s (.worker w) t) :
    t.workers.size = s.workers.size := by
  cases change <;> simp

/-- Less is left to do after what a caller does if no worker is created, unless everyone does the
same as before. -/
theorem Changes.dwindles (filed : s.Filed) (changes : Changes (.caller c) s t) :
    t.Filed ∧ s.Later t ∧ (t.workers.size = s.workers.size → ∀ n, Dwindles n s t) := by
  induction changes with
  | refl => exact ⟨filed, .refl s, fun _ _ ↦ .refl s⟩
  | tail _ change ih =>
    obtain ⟨filed, later, dwindles⟩ := ih
    refine ⟨change.filed filed, later.trans change.later, fun size n ↦ ?_⟩
    have first := later.size_le
    have second := change.later.size_le
    have kept := dwindles (by omega) n
    rcases change.dwindles filed (by omega) with less | repeats
    · exact kept.trans (less n)
    · obtain ⟨w, -, -, -, -, -, other, -⟩ := repeats.repeated
      exact absurd other (by simp)

/-- A caller that creates a worker and brings its envelope there has less left to do than both had
before. -/
theorem effort_spawn (known : s.callers.get? c = some x) (seeking : x.phase = .seeking)
    (tries : x.tries ≠ 0) (n : Nat) :
    ((s.spawn x.key).2.offer c x s.workers.size).effort n + 3 ≤ s.effort n := by
  obtain ⟨workers, callers, -⟩ := offer_spawn s c x
  generalize (s.spawn x.key).2.offer c x s.workers.size = t at workers callers
  have workers : t.workers = _ := workers
  have callers : t.callers = _ := callers
  have new : (s.workers.push (s.newWorker x.key)).get? s.workers.size = some (s.newWorker x.key) :=
    Table.get?_push_self
  rw [Table.update_eq_set new] at workers
  rw [Table.update_eq_set known] at callers
  have more := Table.total_set (f := Worker.toil n)
    (b := { s.newWorker x.key with
      mailbox := (s.newWorker x.key).mailbox.push ⟨x.key, x.request, c⟩ }) new
  have pushed := Table.total_push (f := Worker.toil n) (t := s.workers) (s.newWorker x.key)
  have fewer := Table.total_set (f := Caller.toil n)
    (b := { x with phase := .awaiting s.workers.size }) known
  obtain ⟨k, tries⟩ := Nat.exists_eq_succ_of_ne_zero tries
  rw [effort, effort, workers, callers]
  simp only [Worker.toil, newWorker, Mailbox.push, List.nil_append, List.length_singleton,
    List.length_nil, Activity.toil, Caller.toil, seeking, tries, Phase.toil, Nat.mul_succ,
    Nat.succ_sub_one] at *
  omega

/-- Nobody is woken and nobody rests when a worker makes another lookup. -/
theorem Repeats.pace (repeats : Repeats s.bare (.worker w) (s.stepWorker w).bare) :
    (s.stepWorker w).pace = s.pace := by
  obtain ⟨v, y, e, attempt, alarm, next, same, found, syncing, -, workers⟩ := repeats.repeated
  obtain rfl := Task.worker.inj same
  have found : s.workers.get? w = some y := found
  obtain ⟨z, after, busy⟩ : ∃ z, (s.stepWorker w).workers.get? w = some z ∧
      z.activity = .syncing e (attempt + 1) next := by
    have workers : (s.stepWorker w).workers = s.workers.set w _ := workers
    exact ⟨_, by rw [workers, Table.get?_set_self found], rfl⟩
  have finished {u : State} {done : Result × Option Identity} (there : u.workers = s.workers)
      (same : (u.complete w e done).workers.get? w = some z) : False := by
    have result := congrArg (·.workers.get? w) (bare_complete u w e done)
    have result : (u.complete w e done).workers.get? w = (u.workers.update w _).get? w := result
    rw [there, Table.get?_update_self found] at result
    rw [Option.some.inj (same.symm.trans result)] at busy
    exact absurd busy (by simp)
  unfold stepWorker at after ⊢
  rw [found] at after ⊢
  dsimp only at after ⊢
  rw [syncing] at after ⊢
  dsimp only at after ⊢
  split
  next due =>
    rw [if_pos due] at after
    unfold lookedUp at after ⊢
    split
    next unknown =>
      rw [unknown] at after
      exact (finished rfl after).elim
    next i known =>
      rw [known] at after
      dsimp only at after ⊢
      have looked := congrArg State.workers (bare_lookup s i.ledger i.address)
      have paced : (s.lookup i.ledger i.address).2.pace = s.pace := by
        cases i.ledger <;> rfl
      generalize (s.lookup i.ledger i.address).2 = u at after looked paced ⊢
      split
      next decided =>
        rw [decided] at after
        exact (finished (u := u) looked after).elim
      next => exact paced
  next early =>
    rw [if_neg early] at after
    rw [← Option.some.inj (found.symm.trans after), syncing] at busy
    exact absurd (Activity.syncing.inj busy).2.1 (Nat.succ_ne_self _).symm

/-- What a step of a task comes to, unless the task rests. -/
inductive Toils (s t : State) : Prop
  /-- Less is left to do, however often lookups are attempted, and much less if a worker is
  created. -/
  | acts (size : s.workers.size ≤ t.workers.size)
    (less : ∀ n, t.effort n < s.effort n ∧
      t.effort n + 3 * t.workers.size ≤ s.effort n + 3 * s.workers.size)
  /-- A worker makes another lookup. -/
  | repeats {w : WorkerId} (repeats : Repeats s.bare (.worker w) t.bare) (pace : t.pace = s.pace)

theorem Toils.labour_lt (toils : Toils s t) (later : s.Later t) : t.labour < s.labour := by
  cases toils with
  | acts size less =>
    have same : t.attempts = s.attempts := congrArg (·.sync.attempts.toNat) later.policy
    rw [labour_eq, labour_eq, same]
    exact (less s.attempts).1
  | repeats repeats => exact repeats.labour_lt

/-- There is less to do after a step of a task, or the task rests. -/
theorem step_toils (h : s.Reachable) (running : s.running = some τ) (taken : s.step = some t) :
    Toils s t ∨ t = s.rest := by
  have reachable := h.run (.single (.step taken))
  have later := Run.later (.single (.step taken))
  have filed : s.Filed := h.ordered.filed
  have result := taken
  unfold step at result
  rw [running] at result
  have settle (size : t.workers.size = s.workers.size) (dwindles : ∀ n, Dwindles n s.bare t.bare)
      (rests : Unmoved s t → t = s.rest) : Toils s t ∨ t = s.rest := by
    by_cases unmoved : Unmoved s t
    · exact .inr (rests unmoved)
    · refine .inl (.acts (Nat.le_of_eq size.symm) fun n ↦ ?_)
      have less : t.effort n < s.effort n :=
        (dwindles n).nearer.resolve_right fun ⟨_, same⟩ ↦ unmoved ⟨same.worker, same.caller⟩
      exact ⟨less, by omega⟩
  cases τ with
  | worker w =>
    obtain rfl := Option.some.inj result
    have change := h.change_of_worker running taken
    rcases change.dwindles h.bare.ordered.filed change.size_of_worker with dwindles | repeats
    · refine settle change.size_of_worker dwindles fun unmoved ↦ ?_
      exact rest_of_unmoved_worker later reachable.emptied unmoved
    · exact .inl (.repeats repeats repeats.pace)
  | caller c =>
    have result := Option.some.inj result
    by_cases more : t.workers.size = s.workers.size
    · subst result
      refine settle more ?_ (rest_of_unmoved_caller filed)
      rcases step_changes taken with ⟨υ, same, changes⟩ | same
      · obtain rfl := Option.some.inj (running.symm.trans same)
        exact (changes.dwindles h.bare.ordered.filed).2.2 more
      · exact fun n ↦ same ▸ .refl _
    · obtain ⟨x, known, seeking, tries, -, -, rfl⟩ := stepCaller_of_more result more
      have size :
          ((s.spawn x.key).2.offer c x s.workers.size).workers.size = s.workers.size + 1 := by
        have size := congrArg Table.size (offer_spawn s c x).1
        rw [Table.size_update, Table.size_push] at size
        exact size
      refine .inl (.acts later.size_le fun n ↦ ?_)
      have less := effort_spawn known seeking tries n
      omega

/-- There is less to do after a step of a task, or the task rests. -/
theorem step_dwindles (h : s.Reachable) (running : s.running = some τ) (taken : s.step = some t) :
    t.labour < s.labour ∨ t = s.rest :=
  (step_toils h running taken).imp_left fun toils ↦
    toils.labour_lt (Run.later (.single (.step taken)))

/-- Once the clock has moved to the moment at which something is due, that is not due any more. -/
theorem alarms_jump (next : s.nextAlarm? = some time) :
    (s.jump time).alarms.length < s.alarms.length := by
  have moved : (s.jump time).alarms = s.alarms.filter (time < ·.1.time) := by
    have same := congrArg alarms (bare_jump s time)
    change (s.jump time).alarms = _ at same
    rw [same]
    unfold alarms
    dsimp only
    rw [List.filter_filter]
    refine List.filter_congr fun entry _ ↦ ?_
    have before := now_lt_nextAlarm next
    rw [Bool.eq_iff_iff, Bool.and_eq_true, decide_eq_true_iff, decide_eq_true_iff]
    exact ⟨fun ahead ↦ ⟨ahead, Nat.lt_trans before ahead⟩, And.left⟩
  rw [moved, List.length_filter_lt_length_iff_exists]
  unfold nextAlarm? at next
  obtain ⟨entry, listed, same⟩ := List.mem_map.mp (List.min?_mem next)
  exact ⟨entry, listed, by simp [same]⟩

/-- A task that rests is one less that runs. -/
theorem pace_rest (running : s.running = some τ) : s.rest.pace < s.pace := by
  change State.pace { s with running := none } < s.pace
  simp [pace, running]

/-- While no task runs, a step chooses one and does nothing else. -/
theorem step_chooses (running : s.running = none) (taken : s.step = some t) :
    (∃ running ready isSummoned, t = { s with running, ready, isSummoned }) ∧ t.pace < s.pace := by
  unfold step at taken
  rw [running] at taken
  dsimp only at taken
  split at taken
  next υ ready first =>
    obtain rfl := Option.some.inj taken
    refine ⟨⟨some υ, ready, s.isSummoned, rfl⟩, ?_⟩
    simp only [pace, running, first, Option.toList_some, Option.toList_none, List.length_cons,
      List.length_nil]
    omega
  next none_ready =>
    split at taken
    next c foremost =>
      split at taken
      next summoned =>
        obtain rfl := Option.some.inj taken
        refine ⟨⟨some (.caller c), s.ready, false, rfl⟩, ?_⟩
        simp [pace, running, none_ready, foremost, summoned]
      next => exact absurd taken (by simp)
    next => exact absurd taken (by simp)

/-- Whatever comes about by itself, an end is nearer. -/
theorem tick_nearer (h : s.Reachable) (ticks : s.tick = some t) :
    Prod.Lex (· < ·) (Prod.Lex (· < ·) (· < ·)) (t.labour, t.alarms.length, t.pace)
      (s.labour, s.alarms.length, s.pace) := by
  unfold tick at ticks
  split at ticks
  next u taken =>
    obtain rfl := Option.some.inj ticks
    cases running : s.running with
    | some τ =>
      rcases step_dwindles h running taken with less | rfl
      · exact .left _ _ less
      · exact .right _ (.right _ (pace_rest running))
    | none =>
      obtain ⟨⟨_, _, _, rfl⟩, paced⟩ := step_chooses running taken
      exact .right _ (.right _ paced)
  next idle =>
    obtain ⟨time, next, rfl⟩ := Option.map_eq_some_iff.mp ticks
    have same : (s.jump time).labour = s.labour := by
      have same := congrArg labour (bare_jump s time)
      exact same
    rw [same]
    exact .right _ (.left _ _ (alarms_jump next))

/-- A service comes to rest by itself. -/
theorem Reachable.comes_to_rest {s : State} (h : s.Reachable) : ∃ t, Ticks s t ∧ t.tick = none := by
  cases ticks : s.tick with
  | none => exact ⟨s, .refl, ticks⟩
  | some t =>
    obtain ⟨u, rest, still⟩ := (h.run (run_of_tick ticks)).comes_to_rest
    exact ⟨u, .head ticks rest, still⟩
termination_by (s.labour, s.alarms.length, s.pace)
decreasing_by exact tick_nearer h ticks

/-- Steps come about by themselves. -/
theorem ticks_runReady (fuel : Nat) (s : State) : Ticks s (runReady fuel s) := by
  induction fuel generalizing s with
  | zero => exact .refl
  | succ fuel ih =>
    unfold runReady
    split
    next => exact .refl
    next t taken =>
      refine .head ?_ (ih t)
      unfold tick
      rw [taken]

/-- In a session the clock moves and then tasks run. -/
theorem Session.advance {policy : Policy} {connector : Ledger.Connector}
    (h : Session policy connector front s) (idle : s.step = none)
    (next : s.nextAlarm? = some time) (alone : s.foreground = none)
    (order : (s.alarms.filter (·.1.time = time)).Pairwise (·.1.ticket ≤ ·.1.ticket)) (fuel : Nat) :
    Session policy connector front (State.runReady fuel
        (((s.alarms.filter (·.1.time = time)).map (·.2)).foldl wake { s with now := time })) ∧
      Ticks s (State.runReady fuel
        (((s.alarms.filter (·.1.time = time)).map (·.2)).foldl wake { s with now := time })) := by
  refine ⟨(h.jump_listed idle next alone order).runReady fuel, .head ?_ (ticks_runReady fuel _)⟩
  rw [State.tick, idle, ← jump_eq_listed alone order, next]
  rfl

end Ticking

section Resolving

/-- Nobody waits for a worker that has left or has died. -/
theorem not_awaiting_of_over (owned : Owned s.workers s.callers) (empty : s.Emptied)
    (found : s.workers.get? w = some y) (past : y.activity.isOver = true)
    (known : s.callers.get? c = some x) : x.phase ≠ .awaiting w := by
  intro awaiting
  have closed := (owned.shut found).trans past
  have least := (owned.fits (c := c) found).least
  have nothing : y.held = [] := by
    have hand : y.activity.hand? = none := by
      cases activity : y.activity with
      | connecting => exact absurd past (by simp [activity, Activity.isOver])
      | syncing => exact absurd past (by simp [activity, Activity.isOver])
      | _ => rfl
    rw [Worker.held, Worker.envelopes, hand, empty w y found closed]
    rfl
  rw [phase?_of_found known, awaiting, claim, if_pos rfl, nothing] at least
  exact absurd least (by simp)

/-- Nobody stands in the line of a worker that has left or has died. -/
theorem not_waiting_of_over (owned : Owned s.workers s.callers) (found : s.workers.get? w = some y)
    (past : y.activity.isOver = true) : c ∉ y.mailbox.waiting := by
  intro waits
  have lined := (owned.fits (c := c) found).lined
  rw [(owned.shut found).trans past, if_pos rfl] at lined
  exact List.count_eq_zero.mp lined (List.mem_append_right _ waits)

/-- A service in which nothing comes about by itself any more waits for nothing. -/
theorem idle_of_tick (still : s.tick = none) : s.step = none ∧ s.alarms = [] := by
  unfold tick at still
  split at still
  next => exact absurd still (by simp)
  next idle =>
    have none := Option.map_eq_none_iff.mp still
    unfold nextAlarm? at none
    exact ⟨idle, List.map_eq_nil_iff.mp (List.min?_eq_none_iff.mp none)⟩

/-- Every worker has left or has died when nothing comes about by itself any more. -/
theorem Attended.worker_over (h : s.Attended) (watched : s.Watched) (still : s.tick = none)
    (found : s.workers.get? w = some y) : y.activity.isOver = true := by
  obtain ⟨idle, nothing⟩ := idle_of_tick still
  have calm := h.calm (idle_of_step idle) found
  have waits {alarm : Alarm} (waits : y.activity.alarm? = some alarm) : False := by
    have listed := mem_alarms_worker found waits (calm.ahead alarm waits)
    rw [nothing] at listed
    exact List.not_mem_nil listed
  cases activity : y.activity with
  | idle =>
    have slack := watched.slack (idle_of_step idle) found activity
    have listed := mem_alarms_idle found activity slack.early
    rw [nothing] at listed
    exact absurd listed List.not_mem_nil
  | connecting => exact (waits (by rw [activity]; rfl)).elim
  | syncing => exact (waits (by rw [activity]; rfl)).elim
  | left => rfl
  | died => rfl

/-- Every call is over when nothing comes about by itself any more. -/
theorem Attended.caller_over (h : s.Attended) (watched : s.Watched) (empty : s.Emptied)
    (still : s.tick = none) (known : s.callers.get? c = some x) : x.phase.isEnded = true := by
  cases h.stands (idle_of_step (idle_of_tick still).1) known with
  | past past => exact past
  | reply awaiting =>
    obtain ⟨y, found⟩ := h.owned.present known (congrArg Phase.host? awaiting)
    have past := h.worker_over watched still found
    exact absurd awaiting (not_awaiting_of_over h.owned empty found past known)
  | line suspended found waits =>
    have past := h.worker_over watched still found
    exact absurd waits (not_waiting_of_over h.owned found past)

end Resolving

/-- Every worker has left or has died, and every call is over. -/
structure Resolved (s : State) : Prop where
  workers : ∀ {w y}, s.workers.get? w = some y → y.activity.isOver = true
  calls : ∀ {c x}, s.callers.get? c = some x → x.phase.isEnded = true

/-- A service that is left alone in a session comes to rest, and then every worker has left or has
died, and every call is over. -/
theorem Session.resolves {policy : Policy} {connector : Ledger.Connector}
    (h : Session policy connector front s) : ∃ t, Ticks s t ∧ t.tick = none ∧ t.Resolved := by
  obtain ⟨t, ticks, still⟩ := h.reachable.comes_to_rest
  have after := h.ticks ticks
  have attended := after.attended
  exact ⟨t, ticks, still, attended.worker_over after.watched still,
    attended.caller_over after.watched after.reachable.emptied still⟩

end Signatory.Service.State
