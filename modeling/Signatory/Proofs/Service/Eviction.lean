import Signatory.Proofs.Service.Expiry
import Signatory.Proofs.Service.Winding

/-!
# Whom a worker leaves waiting

A worker that leaves because it has idled too long has no envelope in its mailbox. But a place in it
may be reserved for a caller that has not run yet. A worker that has just accepted a request does
not leave before that caller runs, as its deadline is set anew; one that has skipped an envelope
may.
-/

namespace Signatory.Service.State

variable {front : List CallerId} {s t : State} {τ : Task} {w v : WorkerId} {y z : Worker}
  {c : CallerId} {x : Caller} {m : Mailbox} {accepted : List CallerId}

section Room

/-- A mailbox that stays open keeps its capacity. -/
theorem Delivers.capacity (delivers : Delivers s τ w y m accepted) (opened : m.closed = false) :
    m.capacity = y.mailbox.capacity ∧ y.mailbox.closed = false := by
  cases delivers with
  | close => exact absurd opened (by simp [Mailbox.close])
  | take _ _ popped =>
    rw [Mailbox.grant_closed, Mailbox.closed_of_pop? popped] at opened
    rw [Mailbox.grant_capacity, Mailbox.capacity_of_pop? popped]
    exact ⟨rfl, opened⟩
  | withdraw =>
    rw [Mailbox.grant_closed] at opened
    exact ⟨Mailbox.grant_capacity _, opened⟩
  | _ => exact ⟨rfl, opened⟩

/-- Requests and the directory are in order, and so are the mailboxes, each of which has room for an
envelope unless it is closed. -/
structure Roomy (s : State) : Prop extends Ordered s where
  sound : ∀ {w y}, s.workers.get? w = some y → y.mailbox.Sound
  room : ∀ {w y}, s.workers.get? w = some y → y.mailbox.closed = false → 0 < y.mailbox.capacity

/-- Every change leaves the mailboxes in order. -/
theorem Change.roomy (h : s.Roomy) (change : Change s τ t) : t.Roomy where
  toOrdered := change.ordered h.toOrdered
  sound := by
    intro w z there
    cases change.trades there with
    | new _ capacity mailbox => exact mailbox ▸ .unused capacity
    | old found delivers => exact delivers.sound (h.sound found)
  room := by
    intro w z there opened
    cases change.trades there with
    | new _ capacity mailbox _ room => exact mailbox ▸ room
    | old found delivers =>
      obtain ⟨same, before⟩ := delivers.capacity opened
      exact same ▸ h.room found before

/-- Every use leaves the mailboxes in order. -/
theorem Use.roomy (h : s.Roomy) (use : Use s t) : t.Roomy where
  toOrdered := use.ordered h.toOrdered
  sound := by
    intro w z there
    obtain ⟨y, found, rfl | rfl⟩ := use.of_worker there
    · exact h.sound found
    · exact (h.sound found :)
  room := by
    intro w z there
    obtain ⟨y, found, rfl | rfl⟩ := use.of_worker there
    · exact h.room found
    · exact (h.room found :)

/-- The mailboxes are in order in every state that can come about. -/
theorem Reachable.roomy (h : s.Reachable) : s.Roomy := by
  have none {policy : Policy} {connector : Ledger.Connector} {w : WorkerId} {y : Worker} :
      (start policy connector).workers.get? w ≠ some y := by
    rw [show (start policy connector).workers.get? w = none from Table.get?_empty w]
    simp
  have kept := Reachable.invariant (P := Roomy)
    (fun policy connector ↦ ⟨ordered_start policy connector, fun found ↦ absurd found none,
      fun found ↦ absurd found none⟩)
    (fun h change ↦ change.roomy h) (fun h use ↦ use.roomy h) h
  exact { h.ordered with sound := kept.sound, room := kept.room }

/-- Whoever waits for a place in an empty mailbox waits for one that is reserved. -/
theorem Roomy.reserved (h : s.Roomy) (found : s.workers.get? w = some y)
    (opened : y.mailbox.closed = false) (empty : y.mailbox.queue = [])
    (inside : c ∈ y.mailbox.lined) : y.mailbox.reserved ≠ [] := by
  intro none
  have waits : y.mailbox.waiting ≠ [] := by
    intro nobody
    rw [Mailbox.lined, none, nobody] at inside
    exact absurd inside List.not_mem_nil
  have full := (h.sound found).2 waits
  rw [Mailbox.free, empty, none] at full
  exact absurd full (Nat.ne_of_gt (h.room found opened))

end Room

section Gap

/-- At this very moment a worker has skipped an envelope. -/
def Skips (s : State) (w : WorkerId) : Prop :=
  ∃ d, ⟨s.now, .skipped d w⟩ ∈ s.journal

/-- A worker in whose mailbox a place is reserved has just been given a new deadline, or has just
skipped an envelope. -/
def Hurried (s : State) : Prop :=
  ∀ w y, s.workers.get? w = some y → y.mailbox.reserved ≠ [] →
    y.idle.time = s.now + s.policy.idleTimeout ∨ s.Skips w

/-- What a worker has skipped at this moment it has skipped at this moment ever after, as long as no
time passes. -/
theorem Skips.later (h : s.Skips w) (later : s.Later t) (now : t.now = s.now) : t.Skips w := by
  obtain ⟨d, recorded⟩ := h
  exact ⟨d, now ▸ later.journal.subset recorded⟩

/-- A worker that takes an envelope, so that a place is reserved, accepts it and is given a new
deadline, or skips it. -/
theorem Change.hurries (filed : s.Filed) (change : Change s (.worker w) t)
    (found : s.workers.get? w = some y) (none : y.mailbox.reserved = [])
    (there : t.workers.get? w = some z) (place : z.mailbox.reserved ≠ []) :
    z.idle.time = s.now + s.policy.idleTimeout ∨ t.Skips w := by
  have own {worker next : Worker} (known : s.workers.get? w = some worker)
      (there : (s.workers.set w next).get? w = some z) : next = z := by
    rw [Table.get?_set known, if_pos rfl] at there
    exact Option.some.inj there
  -- A worker that leaves its mailbox alone reserves no place.
  have alone {worker next : Worker} (known : s.workers.get? w = some worker)
      (there : (s.workers.set w next).get? w = some z)
      (mailbox : next.mailbox.reserved = worker.mailbox.reserved ∨ next.mailbox.reserved = []) :
      False := by
    obtain rfl := own known there
    obtain rfl := Option.some.inj (found.symm.trans known)
    exact place (mailbox.elim (·.trans none) id)
  have rearmed {e : Envelope} {rest : Mailbox} {deadline : Alarm} {worker next : Worker}
      (accepts : Accepts s w worker e rest deadline)
      (there : (s.workers.set w next).get? w = some z) (idle : next.idle = deadline) :
      z.idle.time = s.now + s.policy.idleTimeout := by
    obtain rfl := own accepts.found there
    exact idle ▸ accepts.rearmed
  cases change with
  | rest => exact absurd (Option.some.inj (found.symm.trans there) ▸ none) place
  | leave known => exact (alone known there (.inr rfl)).elim
  | die known => exact (alone known there (.inr rfl)).elim
  | skip => exact .inr ⟨_, List.mem_cons_self⟩
  | misroute takes waits foreign =>
    exact absurd (filed.matched takes.found (takes.envelopes ▸ List.mem_cons_self)) foreign
  | connect accepts => exact .inl (rearmed accepts there rfl)
  | lookup accepts => exact .inl (rearmed accepts there rfl)
  | serve accepts => exact .inl (rearmed accepts there rfl)
  | finish known => exact (alone known there (.inl rfl)).elim
  | again known => exact (alone known there (.inl rfl)).elim

/-- Every change leaves it so that places are reserved only by workers that have just been given a
new deadline or have just skipped an envelope. -/
theorem Change.hurried (roomy : s.Roomy) (h : s.Hurried) (change : Change s τ t) : t.Hurried := by
  intro w z there place
  have now := change.now
  have policy := change.later.policy
  cases change.trades there with
  | new _ _ mailbox => exact absurd (congrArg Mailbox.reserved mailbox) place
  | @old y _ found delivers =>
    by_cases none : y.mailbox.reserved = []
    · obtain ⟨rfl, -⟩ := (delivers.unreserved (roomy.sound found) none).resolve_left place
      rw [now, policy]
      exact change.hurries roomy.filed found none there place
    · rcases h w y found none with due | skips
      · rw [now, policy]
        cases change.rearms roomy.filed there with
        | kept found' idle =>
          obtain rfl := Option.some.inj (found.symm.trans found')
          exact .inl (idle ▸ due)
        | accepted _ due => exact .inl due
        | created missing => exact absurd (missing.symm.trans found) (by simp)
      · exact .inr (skips.later change.later now)

/-- What a task does leaves it so as well. -/
theorem Changes.hurried (roomy : s.Roomy) (h : s.Hurried) (changes : Changes τ s t) :
    t.Hurried := by
  suffices t.Roomy ∧ t.Hurried from this.2
  induction changes with
  | refl => exact ⟨roomy, h⟩
  | tail _ change ih => exact ⟨change.roomy ih.1, change.hurried ih.1 ih.2⟩

/-- No place is reserved in any mailbox. -/
def Placeless (s : State) : Prop :=
  ∀ w y, s.workers.get? w = some y → y.mailbox.reserved = []

/-- No place is reserved while every task waits. -/
theorem Attended.placeless (h : s.Attended) (idle : Idle s) : s.Placeless := by
  intro w y found
  refine List.eq_nil_iff_forall_not_mem.mpr fun c place ↦ ?_
  obtain ⟨-, x, known, suspended⟩ :=
    suspended_of_lined h.owned found (List.mem_append_left _ place)
  cases h.stands idle known with
  | past past => exact absurd past (by simp [suspended, Phase.isEnded])
  | reply awaiting => exact absurd (suspended.symm.trans awaiting) (by simp)
  | line suspended' found' waits =>
    obtain rfl := Phase.suspended.inj (suspended.symm.trans suspended')
    obtain rfl := Option.some.inj (found.symm.trans found')
    have apart := (List.nodup_append.mp (lined_once h.owned found)).2.2
    exact apart c place c waits rfl

/-- If no place is reserved, nobody is hurried. -/
theorem Placeless.hurried (h : s.Placeless) : s.Hurried :=
  fun w y found place ↦ absurd (h w y found) place

/-- What the user does at once reserves no place. -/
theorem Placeless.acts (h : s.Placeless) (acts : Acts s t) : t.Placeless := by
  induction acts with
  | refl => exact h
  | tail _ act ih =>
    intro w z there
    obtain ⟨y, found, rfl | rfl⟩ := act.use.of_worker there
    · exact ih w _ found
    · exact ih w y found

/-- In a session places are reserved only by workers that have just been given a new deadline or
have just skipped an envelope. -/
theorem Session.hurried {policy : Policy} {connector : Ledger.Connector}
    (h : Session policy connector front s) : s.Hurried := by
  have placeless {front : List CallerId} {s : State} (h : Session policy connector front s)
      (idle : s.step = none) : s.Placeless := h.attended.placeless (idle_of_step idle)
  induction h with
  | start =>
    intro w y found
    exact absurd ((Table.get?_empty w).symm.trans found) (by simp)
  | @step _ s t h taken ih =>
    have hurried : t.bare.Hurried := by
      rcases step_changes taken with ⟨τ, -, changes⟩ | same
      · exact changes.hurried h.reachable.bare.roomy ih
      · exact same ▸ ih
    exact hurried
  | act h idle acts => exact ((placeless h idle).acts acts).hurried
  | call h idle acts => exact (((placeless h idle).acts acts).hurried :)
  | finish h idle => exact ((placeless h idle).hurried :)
  | @jump _ s time h idle =>
    have workers := congrArg State.workers (bare_jump s time)
    refine Placeless.hurried fun w y found ↦ placeless h idle w y ?_
    exact workers ▸ found
  | wait h idle => exact Placeless.hurried (placeless h idle :)

end Gap

/-- When a worker leaves because it has idled too long, no envelope is in its mailbox, nobody waits
for a reply from it, and no caller is concerned yet. Someone may be suspended on its mailbox, and
will have to look for another worker; but then a place is reserved for a caller that has not run
yet, and unless no time at all may be spent idling the worker has skipped the envelope of a caller
that had left at that very moment. -/
theorem Reachable.evicts (h : s.Reachable) (next : Next s t) (before : w ∉ s.evictions)
    (new : w ∈ t.evictions) :
    ∃ y, s.workers.get? w = some y ∧ y.mailbox.queue = [] ∧
      ∀ c x, s.callers.get? c = some x → t.callers.get? c = some x ∧ x.phase ≠ .awaiting w ∧
        (x.phase = .suspended w → y.mailbox.reserved ≠ [] ∧
          ∀ policy connector front, Session policy connector front s → 0 < policy.idleTimeout →
            ∃ d, ⟨s.now, .skipped d w⟩ ∈ s.journal) := by
  obtain ⟨y, lapses⟩ := (next.lapses h new).resolve_left before
  have found : s.workers.get? w = some y := lapses.found
  have owned := h.ordered.owned
  have opened : y.mailbox.closed = false := by
    rw [owned.shut found, lapses.looks]
    rfl
  refine ⟨y, found, lapses.empty, fun c x known ↦ ⟨?_, fun awaiting ↦ ?_, fun suspended ↦ ?_⟩⟩
  · have same : t.callers = s.callers := lapses.callers
    rwa [same]
  · have inside := held_of_awaiting owned known awaiting found
    rw [Worker.held, Worker.envelopes_of_idle lapses.looks, lapses.empty] at inside
    exact absurd inside List.not_mem_nil
  · have place := h.roomy.reserved found opened lapses.empty
      (lined_of_suspended owned known suspended found opened)
    refine ⟨place, fun policy connector front session positive ↦ ?_⟩
    refine (session.hurried w y found place).resolve_left fun due ↦ ?_
    have late : y.idle.time ≤ s.now := lapses.late
    have idles : s.policy = policy := session.run.later.policy
    rw [due, idles] at late
    omega

/-- In a session a worker that may idle for half as long as it takes to connect has room for one
envelope. While it connects a caller leaves whose envelope is there, and another waits for the
place. -/
theorem Session.crowded :
    ∃ s t u : State, Session { idleTimeout := 50, queueCapacity := 1 } trialConnector [] s ∧
      s.step = some t ∧ Ticks t u ∧ 0 ∉ s.evictions ∧ 0 ∈ t.evictions ∧
      (∃ x, s.callers.get? 2 = some x ∧ x.phase = .suspended 0 ∧ x.dropped = false) ∧
      ∃ x, u.callers.get? 2 = some x ∧
        x.phase = .ended (.result (.error (.notFound "treasury"))) := by
  have called := ((Session.start :
    Session { idleTimeout := 50, queueCapacity := 1 } trialConnector [] _).act rfl
      (.tail (.tail (.single (.spawn "treasury" (trialGenerate "slow")))
        (.spawn "treasury" trialSign)) (.spawn "treasury" trialSign))).runReady 40
  have left := (called.act rfl (.single (.drop (c := 1) (by decide)))).runReady 40
  -- The worker has finished and has skipped the envelope of the caller that has left.
  have late := (left.jump_listed rfl (show _ = some 100 from rfl) rfl (by decide)).runReady 3
  exact ⟨_, _, _, late, rfl, ticks_runReady 40 _, by decide, by decide, ⟨_, rfl, rfl, rfl⟩,
    _, rfl, rfl⟩

/-- A worker that leaves someone waiting has skipped the envelope of a caller that had left. -/
theorem Reachable.evicts_skipping :
    ∃ s t : State, s.Reachable ∧ Next s t ∧ 0 ∉ s.evictions ∧ 0 ∈ t.evictions ∧
      ∃ d, ⟨s.now, .skipped d 0⟩ ∈ s.journal := by
  obtain ⟨s, t, u, session, taken, -, before, new, ⟨x, known, suspended, -⟩, -⟩ := Session.crowded
  obtain ⟨y, -, -, callers⟩ := Reachable.evicts session.reachable (.step taken) before new
  have skips := ((callers 2 x known).2.2 suspended).2 _ _ _ session (by decide)
  exact ⟨s, t, session.reachable, .step taken, before, new, skips⟩

/-- So a worker may leave because it has idled too long while a caller is suspended on its mailbox,
and then there is no worker for that caller. -/
theorem Session.stranded :
    ∃ s t u : State, Session { idleTimeout := 50, queueCapacity := 1 } trialConnector [] s ∧
      s.step = some t ∧ Ticks t u ∧ 0 ∉ s.evictions ∧ 0 ∈ t.evictions ∧ ∃ c x z,
        s.callers.get? c = some x ∧ x.phase = .suspended 0 ∧ x.dropped = false ∧
        u.callers.get? c = some z ∧
        z.phase = .ended (.result (.error (.notFound "treasury"))) := by
  obtain ⟨s, t, u, session, taken, ticks, before, new, ⟨x, known, suspended, live⟩,
    z, there, ended⟩ := Session.crowded
  exact ⟨s, t, u, session, taken, ticks, before, new, 2, x, z, known, suspended, live, there, ended⟩

end Signatory.Service.State
