import Signatory.Proofs.Service.Locality
import Signatory.Proofs.Service.Routing

/-!
# Recovering from a death

A worker whose connector crashes dies without taking itself out of the directory. Whoever waits for
its reply is told that the request was lost; whoever is suspended on its mailbox goes on to look for
another worker. Nobody comes to it any more: the first caller that asks for an identity gets a new
worker in its place, any other is told that there is no worker. Whoever learns of the death late
takes nothing but the entry of the dead worker out of the directory, and counts it at most once.
-/

namespace Signatory.Service.State

variable {o s t u : State} {τ : Task} {w v : WorkerId} {y z : Worker} {c : CallerId}
  {x old : Caller} {key : String}

section Dying

/-- A worker is about to find that its connector has crashed. -/
structure Crashes (s : State) (w : WorkerId) (y : Worker) (e : Envelope) : Prop where
  running : s.running = some (.worker w)
  found : s.workers.get? w = some y
  due : ∃ k alarm, y.activity = .connecting e k .crash alarm ∧ alarm.time ≤ s.now

/-- What a death does at once: the mailbox is closed and whoever waits for the reply is told.
Nothing else is touched. -/
structure Collapses (s t : State) (w : WorkerId) (y : Worker) : Prop where
  worker : t.workers.get? w = some { y with mailbox := y.mailbox.close, activity := .died }
  workers : ∀ v, v ≠ w → t.workers.get? v = s.workers.get? v
  callers : ∀ c, t.callers.get? c = (s.callers.get? c).map (Caller.reply w .lost)
  directory : t.directory = s.directory
  ledgers : t.ledgers = s.ledgers
  stats : t.stats = s.stats
  accepted : ∀ v, t.acceptances v = s.acceptances v

/-- What a worker has is the request in its hand and the mail. -/
theorem Crashes.held {e : Envelope} (crashes : Crashes s w y e) :
    y.held = (e :: y.mailbox.queue).map (·.caller) := by
  obtain ⟨k, alarm, connecting, -⟩ := crashes.due
  unfold Worker.held Worker.envelopes
  rw [connecting]
  rfl

/-- A worker whose connector has crashed dies. -/
theorem Reachable.collapses {e : Envelope} (h : s.Reachable) (crashes : Crashes s w y e)
    (taken : s.step = some t) : Collapses s t w y := by
  obtain ⟨k, alarm, connecting, due⟩ := crashes.due
  unfold State.step at taken
  rw [crashes.running] at taken
  obtain rfl := Option.some.inj taken
  have dies : s.stepWorker w = s.die w y e := by
    unfold stepWorker
    rw [crashes.found]
    dsimp only
    rw [connecting]
    exact if_pos due
  have effect := bare_die s w y e
  rw [← dies, Table.update_eq_set (show s.bare.workers.get? w = some y from crashes.found)]
    at effect
  have workers : (s.stepWorker w).workers =
      s.workers.set w { y with mailbox := y.mailbox.close, activity := .died } :=
    congrArg State.workers effect
  have callers : (s.stepWorker w).callers = replyAll w .lost (e :: y.mailbox.queue) s.callers :=
    congrArg State.callers effect
  refine ⟨?_, fun v other ↦ ?_, fun c ↦ ?_, (congrArg State.directory effect :),
    (congrArg State.ledgers effect :), (congrArg State.stats effect :), fun v ↦ ?_⟩
  · rw [workers]
    exact Table.get?_set_self crashes.found
  · rw [workers, Table.get?_set_ne (Ne.symm other)]
  · rw [callers, get?_replyAll]
    split
    next => rfl
    next outside =>
      cases known : s.callers.get? c with
      | none => rfl
      | some x =>
        refine congrArg some (if_neg fun waits ↦ outside ?_).symm
        have inside := held_of_awaiting h.ordered.owned known (Caller.awaits_iff.mp waits)
          crashes.found
        exact crashes.held ▸ inside
  · have journal := congrArg (fun u : State ↦ u.acceptances v) effect
    exact journal

/-- Whoever waits for a reply when the worker dies is told that the request was lost. -/
theorem Collapses.lost (h : Collapses s t w y) (waits : s.awaits c w = true) : Lost t w c := by
  obtain ⟨x, known, awaiting⟩ := awaits_iff.mp waits
  refine ⟨⟨_, h.worker, rfl⟩, { x with phase := .replied w .lost }, ?_, .inl rfl⟩
  rw [h.callers, known]
  exact congrArg some (if_pos (Caller.awaits_iff.mpr awaiting))

/-- Whoever does not wait for a reply when the worker dies is not touched. -/
theorem Collapses.spared (h : Collapses s t w y) (known : s.callers.get? c = some x)
    (other : x.phase ≠ .awaiting w) : t.callers.get? c = some x := by
  rw [h.callers, known]
  exact congrArg some (if_neg fun waits ↦ other (Caller.awaits_iff.mp waits))

/-- A request that was lost stays so, unless its caller gives up. -/
theorem Run.lost (h : s.Reachable) (lost : Lost s w c) (run : Run s t) :
    Lost t w c ∨ t.GaveUp c := by
  induction run with
  | refl => exact .inl lost
  | tail run next ih =>
    rcases ih with lost | gone
    · exact lost.next (h.run run) next
    · exact .inr (Run.gaveUp gone (.single next))

end Dying

section Deserting

/-- Nobody waits for a reply of a worker that has left or died. -/
theorem Reachable.not_awaiting (h : s.Reachable) (found : s.workers.get? w = some z)
    (past : z.activity.isOver = true) (known : s.callers.get? c = some x) :
    x.phase ≠ .awaiting w := by
  intro awaiting
  have owned := h.ordered.owned
  have inside := held_of_awaiting owned known awaiting found
  have empty := h.emptied w z found ((owned.shut found).trans past)
  unfold Worker.held Worker.envelopes at inside
  rw [empty] at inside
  cases activity : z.activity <;> simp_all [Activity.hand?, Activity.isOver]

/-- Whoever is suspended on a mailbox was so before, or has just found it open. -/
theorem Change.suspends (change : Change s τ t) (here : t.callers.get? c = some x)
    (suspended : x.phase = .suspended w) :
    (∃ old, s.callers.get? c = some old ∧ old.phase = .suspended w) ∨ s.isClosed w = false := by
  obtain ⟨old, known, before | ⟨seeking, rfl⟩⟩ := change.suspended here suspended
  · exact .inl ⟨old, known, before⟩
  right
  have becomes {next was : Caller} (found : s.callers.get? c = some was)
      (now : (s.callers.set c next).get? c = some x) : next.phase = .suspended w :=
    Table.eq_of_set found now ▸ suspended
  cases change with
  | suspend offers found opened =>
    obtain rfl := Phase.suspended.inj (becomes offers.found here)
    unfold isClosed
    rw [found]
    exact opened
  | rest =>
    obtain rfl := Option.some.inj (known.symm.trans here)
    exact absurd (seeking.symm.trans suspended) (by simp)
  | spawn =>
    obtain rfl := Option.some.inj (known.symm.trans here)
    exact absurd (seeking.symm.trans suspended) (by simp)
  | limit found waiting =>
    obtain rfl := Option.some.inj (known.symm.trans found)
    rcases waiting with waits | waits <;> exact absurd (seeking.symm.trans waits) (by simp)
  | begin found => exact absurd (becomes found here) (by simp)
  | beginDirect found => exact absurd (becomes found here) (by simp)
  | push offers => exact absurd (becomes offers.found here) (by simp)
  | refuse offers => exact absurd (becomes offers.found here) (by simp)
  | refuseDirect offers => exact absurd (becomes offers.found here) (by simp)
  | occupy found => exact absurd (becomes found here) (by simp)
  | turnAway found => exact absurd (becomes found here) (by simp)
  | retry found => exact absurd (becomes found here) (by simp)
  | conclude found => exact absurd (becomes found here) (by simp)
  | notFound found => exact absurd (becomes found here) (by simp)
  | lose found => exact absurd (becomes found here) (by simp)
  | giveUp found => exact absurd (becomes found here) (by simp)
  | withdraw found => exact absurd (becomes found here) (by simp)

/-- A worker has left or died, has accepted nothing since, and nobody has come to it. -/
structure Deserted (s t : State) (w : WorkerId) : Prop where
  past : ∃ z, t.workers.get? w = some z ∧ z.activity.isOver = true
  accepted : t.acceptances w = s.acceptances w
  awaiting : ∀ c x, t.callers.get? c = some x → x.phase ≠ .awaiting w
  suspended : ∀ c x, t.callers.get? c = some x → x.phase = .suspended w →
    ∃ old, s.callers.get? c = some old ∧ old.phase = .suspended w

/-- Nobody comes to a worker that has left or died. -/
theorem Run.deserted (h : s.Reachable) (found : s.workers.get? w = some y)
    (past : y.activity.isOver = true) (run : Run s t) : Deserted s t w := by
  let P (u : State) : Prop :=
    Owned u.workers u.callers ∧ u.Emptied ∧
      (∃ z, u.workers.get? w = some z ∧ z.activity.isOver = true) ∧
      u.acceptances w = s.acceptances w ∧
      ∀ c x, u.callers.get? c = some x → x.phase = .suspended w →
        ∃ old, s.callers.get? c = some old ∧ old.phase = .suspended w
  have kept : P t.bare := by
    refine Run.preserve (P := P) ?_ ?_
      ⟨h.ordered.owned, h.emptied, ⟨y, found, past⟩, rfl, fun c x known suspended ↦ ?_⟩ run
    · rintro u τ v ⟨owned, emptied, ⟨z, there, ended⟩, accepted, old⟩ change
      have closed := isClosed_of_over owned there ended
      obtain ⟨z', there', since⟩ := change.later.workers w z there
      refine ⟨change.owned owned, change.emptied emptied,
        ⟨z', there', by rw [since.past ended, ended]⟩, ?_, fun c x here suspended ↦ ?_⟩
      · rcases change.acceptances w with same | ⟨z'', e, there'', queued, -⟩
        · exact same.trans accepted
        · -- There is no mail left.
          obtain rfl := Option.some.inj (there.symm.trans there'')
          rw [emptied w z there ((owned.shut there).trans ended)] at queued
          exact absurd queued List.not_mem_nil
      · rcases change.suspends here suspended with ⟨before, known, was⟩ | opened
        · exact old c before known was
        · exact absurd (closed.symm.trans opened) (by simp)
    · rintro u v ⟨owned, emptied, ⟨z, there, ended⟩, accepted, old⟩ use
      obtain ⟨z', there', since⟩ := use.later.workers w z there
      refine ⟨use.owned owned, use.emptied emptied,
        ⟨z', there', by rw [since.past ended, ended]⟩, (use.acceptances w).trans accepted, ?_⟩
      intro c x here suspended
      rcases use.becomes here with ⟨-, key, request, rfl⟩ | ⟨before, known, rfl | rfl⟩
      · exact absurd suspended (by simp)
      · exact old c _ known suspended
      · exact old c before known suspended
    · exact ⟨x, known, suspended⟩
  obtain ⟨-, -, ended, accepted, suspended⟩ := kept
  refine ⟨ended, accepted, fun c x known ↦ ?_, suspended⟩
  obtain ⟨z, there, ended⟩ := ended
  exact (h.run run).not_awaiting there ended known

/-- What has become of a request whose caller was suspended on the mailbox of a worker that died:
it waits to learn of it, or looks for another worker, or its caller has given up. Nobody has
accepted it before it came back. -/
inductive Spared (s t : State) (w : WorkerId) (c : CallerId) (x : Caller) : Prop
  | waits {now : Caller} (found : t.callers.get? c = some now) (suspended : now.phase = .suspended w)
    (tries : now.tries = x.tries) (unaccepted : ∀ v, c ∉ t.acceptances v)
  | returned (back : Returned s t c x)
  | gaveUp (gone : t.GaveUp c)

/-- A request that is spared goes on to come back. -/
theorem Spared.next (h : s.Reachable) (before : Run o s) (spared : Spared o s w c x)
    (found : s.workers.get? w = some y) (past : y.activity.isOver = true) (next : Next s t) :
    Spared o t w c x := by
  have after : t.Reachable := h.run (.single next)
  have later : s.Later t := Run.later (.single next)
  cases spared with
  | gaveUp gone => exact .gaveUp (Run.gaveUp gone (.single next))
  | returned back =>
    obtain ⟨u, now, earlier, since, rest⟩ := back
    exact .returned ⟨u, now, earlier, since.tail next, rest⟩
  | @waits old known suspended tries unaccepted =>
    have decided : old.phase ≠ .seeking := by simp [suspended]
    obtain ⟨now, here, fares⟩ := next.fares h known decided
    have fresh (live : credit t.workers c (some now.phase) = 1) (v : WorkerId) :
        c ∉ t.acceptances v := by
      rw [mem_acceptances]
      exact after.sole.not_accepted (by rw [phase?_of_found here]; exact live) v
    have still (same : now.phase = old.phase) (left : now.tries = old.tries) :
        Spared o t w c x := by
      have waiting := same.trans suspended
      exact .waits here waiting (left.trans tries) (fresh (by rw [waiting]; rfl))
    cases fares with
    | stay => exact still rfl rfl
    | limit => exact still rfl rfl
    | drop => exact still rfl rfl
    | begin begins => exact absurd (suspended.symm.trans begins) (by simp)
    | refuse offers => exact absurd offers.seeking decided
    | push offers => exact absurd offers.seeking decided
    | suspend offers => exact absurd offers.seeking decided
    | back =>
      exact .returned ⟨t, _, before.tail next, .refl, here, rfl, by rw [tries], fresh rfl⟩
    | enqueue was =>
      obtain rfl := Phase.suspended.inj (suspended.symm.trans was)
      obtain ⟨z, there, since⟩ := later.workers _ y found
      exact absurd rfl (after.not_awaiting there (by rw [since.past past, past]) here)
    | reply awaiting => exact absurd (suspended.symm.trans awaiting) (by simp)
    | stop ends =>
      rcases ends.cause decided with cause | ⟨v, r, replied, -⟩ | ⟨v, replied, -⟩ | ⟨direct, -⟩
      · exact .gaveUp (cause.gaveUp later.policy here)
      · exact absurd (suspended.symm.trans replied) (by simp)
      · exact absurd (suspended.symm.trans replied) (by simp)
      · exact absurd (h.ordered.filed.indirect known) direct

/-- What has become of a request whose caller was suspended on the mailbox of a worker that died. -/
theorem Run.spared (h : s.Reachable) (found : s.workers.get? w = some y)
    (past : y.activity.isOver = true) (known : s.callers.get? c = some x)
    (suspended : x.phase = .suspended w) (run : Run s t) : Spared s t w c x := by
  induction run with
  | refl =>
    refine .waits known suspended rfl fun v ↦ ?_
    rw [mem_acceptances]
    exact h.sole.not_accepted (by rw [phase?_of_found known, suspended]; rfl) v
  | tail run next ih =>
    obtain ⟨z, there, since⟩ := (Run.later run).workers w y found
    exact ih.next (h.run run) run there (by rw [since.past past, past]) next

end Deserting

section Succeeding

/-- A worker that was not there is named for its key. -/
theorem Change.founded (change : Change s τ t) (new : s.workers.get? v = none)
    (there : t.workers.get? v = some z) : t.find? z.key = some v := by
  have outside : ¬ v < s.workers.size := by
    rw [← Table.get?_isSome, new]
    simp
  have inside := Table.lt_size there
  cases change with
  | spawn =>
    rcases Table.of_push there with ⟨here, rfl, -⟩ | there
    · rw [find?_eq, lookUp_cons, if_pos rfl, here]
    · exact absurd (new.symm.trans there) (by simp)
  | leave => exact absurd (by simpa using inside) outside
  | _ => exact absurd (by simpa using inside) outside

/-- Whoever is named for a key is the latest worker of that key. -/
def Newest (s : State) : Prop :=
  ∀ key v w z, s.find? key = some v → s.workers.get? w = some z → z.key = key → w ≤ v

theorem Change.newest (h : s.Newest) (change : Change s τ t) : t.Newest := by
  intro key v w z named there own
  cases before : s.workers.get? w with
  | none =>
    have named' := change.founded before there
    rw [own] at named'
    exact Nat.le_of_eq (Option.some.inj (named'.symm.trans named))
  | some y =>
    obtain ⟨z', there', since⟩ := change.later.workers w y before
    obtain rfl := Option.some.inj (there.symm.trans there')
    rcases change.named named with old | ⟨rfl, -⟩
    · exact h key v w y old before (since.key.symm.trans own)
    · exact Nat.le_of_lt (Table.lt_size before)

theorem Use.newest (h : s.Newest) (use : Use s t) : t.Newest := by
  intro key v w z named there own
  obtain ⟨y, before, rfl | rfl⟩ := use.of_worker there
  · exact h key v w _ (use.named named) before own
  · exact h key v w y (use.named named) before own

/-- Whoever is named for a key is the latest worker of that key, whatever has happened. -/
theorem Reachable.newest (h : s.Reachable) : s.Newest :=
  have start (policy : Policy) (connector : Ledger.Connector) :
      (State.start policy connector).Newest := by
    intro key v w z named
    exact absurd named (by simp [State.start, find?])
  have bare : s.bare.Newest :=
    Reachable.invariant (P := Newest) start (fun h change ↦ change.newest h)
      (fun h use ↦ use.newest h) h
  bare

/-- A caller that asks for an identity is with a worker created for it, which has nothing but its
request. -/
structure Renews (s t : State) (c : CallerId) (x : Caller) : Prop where
  named : t.find? x.key = some s.workers.size
  founded : ∃ z k, t.workers.get? s.workers.size = some z ∧ z.key = x.key ∧
    z.identity = none ∧ Begins s t s.workers.size z c k
  waits : t.callers.get? c = some { x with phase := .awaiting s.workers.size }

/-- A caller that may look for a worker runs. -/
structure Seeks (s : State) (c : CallerId) (x : Caller) : Prop where
  running : s.running = some (.caller c)
  known : s.callers.get? c = some x
  seeking : x.phase = .seeking
  kept : x.dropped = false

/-- What a caller does that looks for a worker. -/
theorem Seeks.taken (seeks : Seeks s c x) (direct : x.direct = none) (taken : s.step = some t) :
    t = s.seek c x := by
  unfold State.step at taken
  rw [seeks.running] at taken
  obtain rfl := Option.some.inj taken
  unfold stepCaller
  rw [seeks.known]
  dsimp only
  rw [seeks.seeking, direct, seeks.kept]
  rfl

/-- A caller that asks for an identity is with a new worker if none that is open is named. -/
theorem Reachable.renews (h : s.Reachable) (small : s.policy.queueCapacity ≤ capacityLimit)
    (seeks : Seeks s c x) (creates : x.request.createsWorker = true) (tries : x.tries ≠ 0)
    (serving : s.isShutDown = false) (vacant : ∀ v, s.find? x.key = some v → s.isClosed v = true)
    (taken : s.step = some t) : Renews s t c x := by
  have known := seeks.known
  have direct := h.ordered.filed.indirect known
  have offered : t = s.offerNew c x := by
    rw [seeks.taken direct taken]
    unfold seek
    rw [if_neg tries, if_neg (by simp [serving])]
    split
    next v named => exact if_pos (by simp [creates, vacant v named])
    next => exact if_pos creates
  have spawned : s.offerNew c x = (s.spawn x.key).2.offer c x s.workers.size := by
    unfold offerNew
    exact if_neg (Nat.not_lt.mpr small)
  obtain ⟨workers, callers, -⟩ := offer_spawn s c x
  rw [← spawned, ← offered] at workers callers
  have there : t.workers.get? s.workers.size = some
      { s.newWorker x.key with
        mailbox := (s.newWorker x.key).mailbox.push ⟨x.key, x.request, c⟩ } := by
    exact (congrArg (·.get? s.workers.size) workers :).trans
      (Table.get?_update_self Table.get?_push_self)
  have new : s.workers.get? s.workers.size = none := Table.get?_size
  obtain ⟨d, k, begins⟩ := (Next.step taken).begins h new there
  obtain rfl := Task.caller.inj (Option.some.inj (seeks.running.symm.trans begins.running))
  refine ⟨offered ▸ (offerNew_lands known small).1, ⟨_, k, there, rfl, rfl, begins⟩, ?_⟩
  exact (congrArg (·.get? c) callers :).trans (Table.get?_update_self known)

/-- How the call of a caller for whose key there is no worker ends. -/
def ToldMissing (t : State) (c : CallerId) (x : Caller) : Prop :=
  t.callers.get? c = some { x with phase := .ended (.result (.error (.notFound x.key))) }

/-- A caller that does not ask for an identity is told that there is no worker if none is named. -/
theorem Seeks.misses (seeks : Seeks s c x) (direct : x.direct = none)
    (asks : x.request.createsWorker = false) (serving : s.isShutDown = false)
    (vacant : s.find? x.key = none) (taken : s.step = some t) : ToldMissing t c x := by
  have concluded : t = s.concludeNotFound c x.key := by
    rw [seeks.taken direct taken]
    unfold seek
    split
    next => rfl
    next =>
      rw [if_neg (by simp [serving]), vacant]
      exact if_neg (by simp [asks])
  have callers := congrArg State.callers (bare_concludeNotFound s c x.key)
  rw [← concluded] at callers
  exact (congrArg (·.get? c) callers :).trans (Table.get?_update_self seeks.known)

/-- A caller that does not ask for an identity takes a worker that is closed out of the directory,
and looks again. -/
theorem Seeks.refused (seeks : Seeks s c x) (direct : x.direct = none)
    (asks : x.request.createsWorker = false) (tries : x.tries ≠ 0)
    (serving : s.isShutDown = false) (named : s.find? x.key = some w)
    (found : s.workers.get? w = some y) (closed : y.mailbox.closed = true)
    (taken : s.step = some t) :
    Seeks t c { x with tries := x.tries - 1 } ∧ t.isShutDown = false ∧ t.find? x.key = none := by
  have refuses : t = { s.log (.offered c w) with
      directory := s.directory.filter (·.1 ≠ x.key)
      callers := s.callers.update c fun x ↦ { x with phase := .seeking, tries := x.tries - 1 } } := by
    rw [seeks.taken direct taken]
    unfold seek
    rw [if_neg tries, if_neg (by simp [serving]), named]
    dsimp only
    rw [if_neg (by simp [asks])]
    unfold offer
    dsimp only
    rw [show (s.log (.offered c w)).workers.get? w = some y from found]
    dsimp only
    rw [if_pos closed]
    unfold turnedAway
    rw [direct]
    dsimp only
    unfold detach
    rw [if_pos (show (s.log (.offered c w)).find? x.key = some w from named)]
    rfl
  subst refuses
  refine ⟨⟨seeks.running, ?_, seeks.seeking, seeks.kept⟩, serving, ?_⟩
  · refine (Table.get?_update ..).trans ?_
    rw [if_pos rfl, seeks.known, Option.map_some, seeks.seeking]
  · rw [find?_eq, lookUp_filter, if_pos rfl]

end Succeeding

section Learning

/-- What somebody does who is concerned with a dead worker: nothing but the entry of that worker is
taken out of the directory, and its death is counted only with the entry. -/
structure Belated (s t : State) (w : WorkerId) (key : String) : Prop where
  named : ∀ k v, v ≠ w → (t.find? k = some v ↔ s.find? k = some v)
  workers : ∀ v, v ≠ w → t.workers.get? v = s.workers.get? v
  ledgers : t.ledgers = s.ledgers
  counted : t.stats.aborted = s.stats.aborted ∨
    t.stats.aborted = s.stats.aborted + 1 ∧ s.find? key = some w ∧ t.find? key = none

/-- Taking a worker out of the directory takes no other out. -/
theorem named_without_iff {k : String} (directory : t.directory = s.without key w)
    (other : v ≠ w) : t.find? k = some v ↔ s.find? k = some v := by
  rw [find?_eq, directory]
  exact ⟨named_of_without, lookUp_without_ne other⟩

/-- What a caller does that deals with a dead worker. -/
theorem Change.belated (filed : s.Filed) (change : Change s (.caller c) t)
    (known : s.callers.get? c = some x)
    (concerns : x.phase.host? = some w ∨ ∃ r, x.phase = .replied w r)
    (found : s.workers.get? w = some y) : Belated s t w y.key := by
  have own {old : Caller} {p : Phase} (known' : s.callers.get? c = some old)
      (phase : old.phase = p) : p.host? = some w ∨ ∃ r, p = .replied w r := by
    obtain rfl := Option.some.inj (known.symm.trans known')
    exact phase ▸ concerns
  cases change with
  | spawn known' seeking => exact absurd (own known' seeking) (by simp [Phase.host?])
  | push offers => exact absurd (own offers.found offers.seeking) (by simp [Phase.host?])
  | suspend offers => exact absurd (own offers.found offers.seeking) (by simp [Phase.host?])
  | refuse offers => exact absurd (own offers.found offers.seeking) (by simp [Phase.host?])
  | occupy known' suspended =>
    obtain rfl := Option.some.inj ((own known' suspended).resolve_right (by simp))
    exact ⟨fun _ _ _ ↦ .rfl, fun _ other ↦ Table.get?_set_ne (Ne.symm other), rfl, .inl rfl⟩
  | turnAway known' suspended =>
    obtain rfl := Option.some.inj ((own known' suspended).resolve_right (by simp))
    exact ⟨fun _ _ ↦ named_without_iff rfl, fun _ _ ↦ rfl, rfl, .inl rfl⟩
  | @lose _ old v known' replied =>
    obtain ⟨r, same⟩ := (own known' replied).resolve_left (by simp [Phase.host?])
    obtain ⟨rfl, -⟩ := Phase.replied.inj same
    obtain ⟨z, there, key, -⟩ := filed.stranded known' replied
    obtain rfl := Option.some.inj (found.symm.trans there)
    refine ⟨fun _ _ ↦ named_without_iff rfl, fun _ _ ↦ rfl, rfl, ?_⟩
    rw [key]
    by_cases named : s.find? old.key = some v
    · refine .inr ⟨by simp [named], named, ?_⟩
      rw [find?_eq, lookUp_without, if_pos ⟨rfl, named⟩]
    · exact .inl (by simp [named])
  | withdraw known' suspended =>
    obtain rfl := Option.some.inj ((own known' suspended).resolve_right (by simp))
    refine ⟨fun _ _ _ ↦ .rfl, fun v other ↦ ?_, rfl, .inl rfl⟩
    rw [Table.get?_update, if_neg (Ne.symm other)]
  | _ => exact ⟨fun _ _ _ ↦ .rfl, fun _ _ ↦ rfl, rfl, .inl rfl⟩

/-- What somebody does who is concerned with a dead worker. -/
theorem Reachable.belated (h : s.Reachable) (found : s.workers.get? w = some y)
    (died : y.activity = .died) (running : s.running = some τ) (concerns : s.Concerns w τ)
    (taken : s.step = some t) : Belated s t w y.key := by
  cases τ with
  | worker v =>
    obtain rfl : v = w := concerns
    unfold State.step at taken
    rw [running] at taken
    obtain rfl := Option.some.inj taken
    have rests : s.stepWorker v = s.rest := by
      unfold stepWorker
      rw [found]
      dsimp only
      rw [died]
    rw [rests]
    exact ⟨fun _ _ _ ↦ .rfl, fun _ _ ↦ rfl, rfl, .inl rfl⟩
  | caller c =>
    obtain ⟨x, known, concerns⟩ := concerns
    have change := h.change_of_step running taken fun d x' is found seeking ↦ by
      obtain rfl := Task.caller.inj is
      obtain rfl := Option.some.inj (known.symm.trans found)
      exact absurd concerns (by simp [seeking, Phase.host?])
    have belated := change.belated h.bare.ordered.filed known concerns found
    exact ⟨belated.named, belated.workers, belated.ledgers, belated.counted⟩

/-- A worker whose entry has been taken out is not entered again. -/
theorem Reachable.unnamed (h : s.Reachable) (found : s.workers.get? w = some y)
    (vacant : s.find? y.key = none) (run : Run s t) (k : String) : t.find? k ≠ some w := by
  intro named
  rcases run.named named with before | beyond
  · obtain ⟨z, there, own⟩ := h.ordered.filed.named before
    obtain rfl := Option.some.inj (found.symm.trans there)
    exact absurd (vacant.symm.trans (own ▸ before)) (by simp)
  · exact absurd (Table.lt_size found) (Nat.not_lt.mpr beyond)

/-- Workers of a key that come about after a death have later numbers. -/
theorem Collapses.latest (collapses : Collapses s t w y) (h : s.Reachable)
    (found : s.workers.get? w = some y) (run : Run t u) (named : u.find? y.key = some v) :
    v = w ∨ w < v := by
  rcases run.named named with before | beyond
  · rw [find?_eq, collapses.directory] at before
    have latest := h.newest y.key v w y before found rfl
    exact (Nat.lt_or_eq_of_le latest).symm.imp_left Eq.symm
  · exact .inr (Nat.lt_of_lt_of_le (Table.lt_size collapses.worker) beyond)

/-- Nobody comes to a worker after its death. -/
theorem Collapses.deserted (collapses : Collapses s t w y) (after : t.Reachable) (run : Run t u) :
    Deserted s u w := by
  have since := Run.deserted after collapses.worker rfl run
  refine ⟨since.past, since.accepted.trans (collapses.accepted w), since.awaiting, ?_⟩
  intro c x here phase
  obtain ⟨now, known, phase⟩ := since.suspended c x here phase
  obtain ⟨old, known', was⟩ := Option.map_eq_some_iff.mp ((collapses.callers c).symm.trans known)
  refine ⟨old, known', ?_⟩
  unfold Caller.reply at was
  split at was
  next => exact absurd phase (by simp [← was])
  next => exact was ▸ phase

/-- A session in which a request was lost ends its call with the news, unless the caller gives
up. -/
theorem Lost.resolved (lost : Lost s w c) (resolved : s.Resolved) :
    ∃ x, s.callers.get? c = some x ∧
      x.phase = .ended (.result (.error (.violation
        (.workerStopped x.key x.request.operation)))) := by
  obtain ⟨x, here, replied | ended⟩ := lost.known
  · exact absurd (resolved.calls here) (by simp [replied, Phase.isEnded])
  · exact ⟨x, here, ended⟩

/-- A request that was spared has come back when every call is over, unless its caller has given
up. -/
theorem Spared.resolved (spared : Spared s t w c x) (resolved : t.Resolved) :
    Returned s t c x ∨ t.GaveUp c := by
  cases spared with
  | waits here waiting => exact absurd (resolved.calls here) (by simp [waiting, Phase.isEnded])
  | returned back => exact .inl back
  | gaveUp gone => exact .inr gone

/-- While a dead worker has no successor, a caller that asks for an identity is with a new worker
as soon as it looks for one. -/
theorem Reachable.renews_dead (h : s.Reachable) (there : s.workers.get? w = some z)
    (died : z.activity = .died) (only : ∀ n, s.find? x.key = some n → n = w)
    (serving : s.isShutDown = false) (seeks : Seeks s c x) (tries : x.tries ≠ 0)
    (creates : x.request.createsWorker = true) (taken : s.step = some t) : Renews s t c x := by
  refine h.renews (h.small there) seeks creates tries serving ?_ taken
  intro n named
  obtain rfl := only n named
  exact isClosed_of_over h.ordered.owned there (by rw [died]; rfl)

/-- While a dead worker has no successor, a caller that does not ask for an identity is told that
there is no worker when it looks for one, or when it looks again. -/
theorem Reachable.misses_dead (h : s.Reachable) (there : s.workers.get? w = some z)
    (died : z.activity = .died) (only : ∀ n, s.find? x.key = some n → n = w)
    (serving : s.isShutDown = false) (seeks : Seeks s c x) (tries : x.tries ≠ 0)
    (asks : x.request.createsWorker = false) (taken : s.step = some t) :
    ToldMissing t c x ∨
      ∃ u, t.step = some u ∧ ToldMissing u c { x with tries := x.tries - 1 } := by
  have direct := h.ordered.filed.indirect seeks.known
  cases named : s.find? x.key with
  | none => exact .inl (seeks.misses direct asks serving named taken)
  | some n =>
    obtain rfl := only n named
    have closed : z.mailbox.closed = true :=
      (h.ordered.owned.shut there).trans (by rw [died]; rfl)
    obtain ⟨again, serving, vacant⟩ :=
      seeks.refused direct asks tries serving named there closed taken
    have next : t.step = some (t.stepCaller c) := by
      unfold State.step
      rw [again.running]
    exact .inr ⟨_, next, again.misses direct asks serving vacant next⟩

end Learning

/-- What comes after a worker has died, whatever happens and in whatever order. -/
structure Recovered (s t : State) (w : WorkerId) (y : Worker) : Prop where
  /-- Nothing but the worker and those who wait for its reply is touched. -/
  collapses : Collapses s t w y
  /-- What is done for the key concerns no other key, at the death and ever after. -/
  apart : ∀ u v, Run s u → u.step = some v → ∀ τ, u.running = some τ → u.Belongs y.key τ →
    Apart y.key u v
  /-- Whoever waits for a reply has the request in hand or in the mail, and is told that it was
  lost, or gives up. -/
  lost : ∀ c, s.awaits c w = true → c ∈ y.held ∧ ∀ u, Run t u → Lost u w c ∨ u.GaveUp c
  /-- Whoever is suspended on the mailbox looks for another worker, or gives up. -/
  spared : ∀ c x, s.callers.get? c = some x → x.phase = .suspended w → ∀ u, Run t u →
    Spared t u w c x ∧ (u.tried c).length ≤ 3
  /-- In a session all of this comes about by itself. -/
  settles : ∀ policy connector front u, Session policy connector front u → Run t u →
    ∃ v, Ticks u v ∧ v.tick = none ∧
      (∀ c, s.awaits c w = true → v.GaveUp c ∨ ∃ x, v.callers.get? c = some x ∧
        x.phase = .ended (.result (.error (.violation
          (.workerStopped x.key x.request.operation))))) ∧
      ∀ c x, s.callers.get? c = some x → x.phase = .suspended w → Returned t v c x ∨ v.GaveUp c
  /-- The worker accepts nothing more, and nobody comes to it. -/
  deserted : ∀ u, Run t u → Deserted s u w
  /-- No earlier worker is named for the key. -/
  latest : ∀ u, Run t u → ∀ v, u.find? y.key = some v → v = w ∨ w < v
  /-- While there is no successor, a caller that asks for an identity is with a new worker as soon
  as it has looked for one. -/
  renews : ∀ u v, Run t u → u.isShutDown = false → u.step = some v →
    (∀ n, u.find? y.key = some n → n = w) → ∀ c x, Seeks u c x → x.key = y.key → x.tries ≠ 0 →
    x.request.createsWorker = true → Renews u v c x
  /-- While there is no successor, any other caller is told that there is no worker as soon as it
  has looked for one, at most twice. -/
  misses : ∀ u v, Run t u → u.isShutDown = false → u.step = some v →
    (∀ n, u.find? y.key = some n → n = w) → ∀ c x, Seeks u c x → x.key = y.key → x.tries ≠ 0 →
    x.request.createsWorker = false →
    ToldMissing v c x ∨
      ∃ r, v.step = some r ∧ ToldMissing r c { x with tries := x.tries - 1 }
  /-- Whoever learns of the death takes out the entry of no successor. -/
  belated : ∀ u v, Run t u → u.step = some v → ∀ τ, u.running = some τ → u.Concerns w τ →
    Belated u v w y.key
  /-- The death is counted at most once. -/
  once : ∀ u v, Run t u → u.step = some v → ∀ τ, u.running = some τ → u.Concerns w τ →
    v.stats.aborted ≠ u.stats.aborted → ∀ r r', Run v r → r.step = some r' →
      ∀ υ, r.running = some υ → r.Concerns w υ → r'.stats.aborted = r.stats.aborted

/-- Recovery from the death of a worker whose connector crashes, whatever happens and in whatever
order. Workers, entries and callers of other keys are not touched, then or by anything that is done
for the key later. The callers of the request in its hand and of those in its mailbox are told that
their requests were lost, unless they give up; a caller who is suspended on its mailbox looks for
another worker, of three in all, and its request has not been accepted. In a session that comes
about by itself. The dead worker accepts nothing more and nobody comes to it. Who looks for a worker
of the key meets it or a later one, never an earlier; while there is none later, a caller that asks
for an identity is with a new worker that has none yet, and any other is told that there is no
worker. Whoever learns of the death late leaves the entries of later workers alone, and the death is
counted at most once. -/
theorem Reachable.recovers {e : Envelope} (h : s.Reachable) (crashes : Crashes s w y e)
    (taken : s.step = some t) : Recovered s t w y := by
  have collapses := h.collapses crashes taken
  have after : t.Reachable := h.run (.single (.step taken))
  have dead {u : State} (run : Run t u) :
      ∃ z, u.workers.get? w = some z ∧ z.key = y.key ∧ z.activity = .died := by
    obtain ⟨z, there, since⟩ := (Run.later run).workers w _ collapses.worker
    exact ⟨z, there, since.key, since.past rfl⟩
  have suspended {c : CallerId} {x : Caller} (known : s.callers.get? c = some x)
      (phase : x.phase = .suspended w) : t.callers.get? c = some x :=
    collapses.spared known (by simp [phase])
  have lost {u : State} (run : Run t u) {c : CallerId} (waits : s.awaits c w = true) :
      Lost u w c ∨ u.GaveUp c :=
    Run.lost after (collapses.lost waits) run
  have spared {u : State} (run : Run t u) {c : CallerId} {x : Caller}
      (known : s.callers.get? c = some x) (phase : x.phase = .suspended w) : Spared t u w c x :=
    Run.spared after collapses.worker rfl (suspended known phase) phase run
  have belated {u v : State} (run : Run t u) (taken : u.step = some v) {τ : Task}
      (running : u.running = some τ) (concerns : u.Concerns w τ) : Belated u v w y.key := by
    obtain ⟨z, there, key, died⟩ := dead run
    exact key ▸ (after.run run).belated there died running concerns taken
  refine ⟨collapses, ?_, ?_, ?_, ?_, fun u run ↦ collapses.deserted after run,
    fun u run v named ↦ collapses.latest h crashes.found run named, ?_, ?_,
    fun u v run taken τ ↦ belated run taken, ?_⟩
  · exact fun u v run taken τ running belongs ↦ (h.run run).apart running belongs taken
  · intro c waits
    obtain ⟨x, known, awaiting⟩ := awaits_iff.mp waits
    exact ⟨held_of_awaiting h.ordered.owned known awaiting crashes.found,
      fun u run ↦ lost run waits⟩
  · intro c x known phase u run
    obtain ⟨now, here, -⟩ := (Run.later run).callers c x (suspended known phase)
    exact ⟨spared run known phase, ((after.run run).routing.routed here).few⟩
  · intro policy connector front u session run
    obtain ⟨v, ticks, still, resolved⟩ := session.resolves
    have run := run.trans ticks.run
    exact ⟨v, ticks, still,
      fun c waits ↦ (lost run waits).symm.imp_right (·.resolved resolved),
      fun c x known phase ↦ (spared run known phase).resolved resolved⟩
  · intro u v run serving taken only c x seeks own tries creates
    obtain ⟨z, there, -, died⟩ := dead run
    exact (after.run run).renews_dead there died (own ▸ only) serving seeks tries creates taken
  · intro u v run serving taken only c x seeks own tries asks
    obtain ⟨z, there, -, died⟩ := dead run
    exact (after.run run).misses_dead there died (own ▸ only) serving seeks tries asks taken
  · -- Whoever counts the death finds the entry of the worker, and takes it out.
    intro u v run taken τ running concerns counted r r' since taken' υ running' concerns'
    have run' := (run.tail (.step taken)).trans since
    obtain ⟨-, -, vacant⟩ := (belated run taken running concerns).counted.resolve_left counted
    obtain ⟨z, there, key, -⟩ := dead (run.tail (.step taken))
    have unnamed := (after.run (run.tail (.step taken))).unnamed there (key ▸ vacant) since
    exact (belated run' taken' running' concerns').counted.resolve_right fun again ↦
      unnamed _ again.2.1

/-- A worker dies while it connects, with one envelope in its mailbox and a caller suspended on it;
a caller that asks for an identity then is with another worker. -/
theorem Reachable.recovers_queued :
    ∃ s t u : State, ∃ y e, s.Reachable ∧ Crashes s 0 y e ∧ s.step = some t ∧
      y.held = [0, 1] ∧ y.mailbox.waiting = [2] ∧ Recovered s t 0 y ∧ Run t u ∧
      u.stats.aborted = 1 ∧ u.find? "treasury" = some 1 ∧ u.acceptances 1 = [3] := by
  have called := ((Session.start : Session { queueCapacity := 1 } frailConnector [] _).act rfl
    (.tail (.tail (.single (.spawn "treasury" (trialGenerate "frail")))
      (.spawn "treasury" trialSign)) (.spawn "treasury" trialSign))).runReady 40
  have late := (called.jump_listed rfl (show _ = some 100 from rfl) rfl (by decide)).runReady 1
  have recovered {s t : State} {y : Worker} {e : Envelope} (h : s.Reachable)
      (taken : s.step = some t) (crashes : Crashes s 0 y e) :
      Crashes s 0 y e ∧ Recovered s t 0 y :=
    ⟨crashes, Reachable.recovers h crashes taken⟩
  have calls (o : State) : Run o (runReady 40 ((runReady 40 o).spawnCall
      { key := "treasury", request := trialGenerate "main" }).2) :=
    (Run.runReady 40 o).trans
      ((Run.spawnCall _ "treasury" (trialGenerate "main")).trans (Run.runReady 40 _))
  obtain ⟨crashes, recovered⟩ :=
    recovered late.reachable rfl ⟨rfl, rfl, _, _, rfl, by decide⟩
  exact ⟨_, _, _, _, _, late.reachable, crashes, rfl, rfl, rfl, recovered, calls _, rfl, rfl, rfl⟩

end Signatory.Service.State
