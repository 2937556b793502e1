import Signatory.Proofs.Service.Withdrawal

/-!
# Routing

A request is offered to at most three workers, one after the other and to none of them twice: a
worker that has given it back has closed its mailbox and is not in the directory, and is not entered
there again. A call that is told that there is no worker for its key was never executed: either its
request creates no worker, or three workers have given it back.
-/

namespace Signatory.Service

/-- The worker that a caller deals with. -/
def Phase.partner? : Phase → Option WorkerId
  | .suspended w => some w
  | .awaiting w => some w
  | .replied w _ => some w
  | _ => none

/-- What an event tells about the workers that a request is offered to. -/
def Event.offer? (c : CallerId) : Event → Option WorkerId
  | .offered d w => if d = c then some w else none
  | _ => none

namespace State

variable {s t : State} {τ : Task} {w v : WorkerId} {c d : CallerId} {x old : Caller} {key : String}

/-- The workers that the request of a caller was offered to, the latest first. -/
def tried (s : State) (c : CallerId) : List WorkerId :=
  s.events.filterMap (Event.offer? c)

/-- A worker has given the request of a caller back: it takes no more, is not in the directory, has
not accepted the request, and has handed it back if it had it. -/
structure GaveBack (s : State) (c : CallerId) (w : WorkerId) : Prop where
  past : ∃ y, s.workers.get? w = some y ∧ y.activity.isOver = true
  unnamed : ∀ key, s.find? key ≠ some w
  unaccepted : .accepted c w ∉ s.events
  returned : .queued c w ∈ s.events → .handedBack c w ∈ s.events

/-- Three workers have given the request of a caller back. -/
structure Exhausted (s : State) (c : CallerId) : Prop where
  three : (s.tried c).length = 3
  distinct : (s.tried c).Nodup
  back : ∀ w ∈ s.tried c, s.GaveBack c w

/-- Schedules do not matter for what has been given back. -/
theorem Exhausted.of_bare (h : s.bare.Exhausted c) : s.Exhausted c where
  three := h.three
  distinct := h.distinct
  back := fun w inside ↦
    have given := h.back w inside
    ⟨given.past, given.unnamed, given.unaccepted, given.returned⟩

section Giving

/-- Who has taken part in what a mailbox gets: a caller who is offered to its worker or suspended on
it, while it is open. -/
theorem Change.enqueues (change : Change s τ t) (new : .queued c w ∈ t.events) :
    .queued c w ∈ s.events ∨ τ = .caller c ∧ s.isClosed w = false := by
  have opened {y : Worker} (found : s.workers.get? w = some y)
      (opened : y.mailbox.closed = false) : s.isClosed w = false := by
    unfold isClosed
    rw [found]
    exact opened
  cases change with
  | leave => exact .inl (by simpa using mem_events_leave.mp new)
  | push offers found opening =>
    simp only [events, List.map_cons, List.mem_cons, Event.queued.injEq, reduceCtorEq,
      false_or] at new
    rcases new with ⟨rfl, rfl⟩ | old
    · exact .inr ⟨rfl, opened found opening⟩
    · exact .inl old
  | occupy known suspended found opening =>
    simp only [events, List.map_cons, List.mem_cons, Event.queued.injEq] at new
    rcases new with ⟨rfl, rfl⟩ | old
    · exact .inr ⟨rfl, opened found opening⟩
    · exact .inl old
  | _ => exact .inl (by simpa [events] using new)

/-- The mailbox of a worker that has left or died is closed. -/
theorem isClosed_of_over (owned : Owned s.workers s.callers) {y : Worker}
    (found : s.workers.get? w = some y) (past : y.activity.isOver = true) :
    s.isClosed w = true := by
  unfold isClosed
  rw [found]
  exact (owned.shut found).trans past

/-- A worker that has given a request back is closed. -/
theorem GaveBack.closed (back : s.GaveBack c w) (owned : Owned s.workers s.callers) :
    s.isClosed w = true := by
  obtain ⟨y, found, past⟩ := back.past
  exact isClosed_of_over owned found past

/-- What a worker has given back stays given back. -/
theorem Change.gaveBack (owned : Owned s.workers s.callers) (change : Change s τ t)
    (back : s.GaveBack c w) : t.GaveBack c w where
  past := by
    obtain ⟨y, found, past⟩ := back.past
    obtain ⟨z, there, later⟩ := change.later.workers w y found
    exact ⟨z, there, by rw [later.past past, past]⟩
  unnamed := by
    intro key named
    rcases change.named named with old | ⟨new, -⟩
    · exact back.unnamed key old
    · obtain ⟨y, found, -⟩ := back.past
      exact absurd new (Nat.ne_of_lt (Table.lt_size found))
  unaccepted := by
    obtain ⟨y, found, past⟩ := back.past
    exact fun accepted ↦ back.unaccepted (change.accepted_of_over found past accepted)
  returned := by
    intro queued
    rcases change.enqueues queued with old | ⟨-, opened⟩
    · exact change.later.events_subset (back.returned old)
    · exact absurd ((back.closed owned).symm.trans opened) (by simp)

/-- A use records no event but that a worker is removed or that the service is shut down. -/
theorem Use.recorded {event : Event} (use : Use s t) (removed : ∀ w, event ≠ .removed w)
    (serving : event ≠ .shutDown) (new : event ∈ t.events) : event ∈ s.events := by
  rcases use.events_eq with same | ⟨v, same⟩ | same
  · exact same ▸ new
  · exact (List.mem_cons.mp (same ▸ new)).resolve_left (removed v)
  · exact (List.mem_cons.mp (same ▸ new)).resolve_left serving

/-- A use offers no request. -/
theorem Use.tried (use : Use s t) (c : CallerId) : t.tried c = s.tried c := by
  unfold State.tried
  rcases use.events_eq with same | ⟨v, same⟩ | same <;> rw [same] <;> rfl

/-- What a worker has given back stays given back, whatever is done from outside. -/
theorem Use.gaveBack (use : Use s t) (back : s.GaveBack c w) : t.GaveBack c w where
  past := by
    obtain ⟨y, found, past⟩ := back.past
    obtain ⟨z, there, later⟩ := use.later.workers w y found
    exact ⟨z, there, by rw [later.past past, past]⟩
  unnamed := fun key named ↦ back.unnamed key (use.named named)
  unaccepted := fun accepted ↦ back.unaccepted (use.recorded (by simp) (by simp) accepted)
  returned := fun queued ↦
    use.later.events_subset (back.returned (use.recorded (by simp) (by simp) queued))

/-- A change offers no request but that of the caller who makes it. -/
theorem Change.tried_of_other (change : Change s τ t) (other : τ ≠ .caller c) :
    t.tried c = s.tried c := by
  have apart {d : CallerId} (own : Task.caller d ≠ .caller c) : d ≠ c :=
    fun same ↦ own (congrArg Task.caller same)
  have foreign {d : CallerId} (w : WorkerId) (own : Task.caller d ≠ .caller c)
      (earlier : List Event) :
      (Event.offered d w :: earlier).filterMap (Event.offer? c) =
        earlier.filterMap (Event.offer? c) :=
    List.filterMap_cons_none (if_neg (apart own))
  unfold State.tried
  cases change with
  | leave =>
    rw [events, List.map_append, List.filterMap_append,
      filterMap_returns _ _ _ _ fun _ ↦ rfl]
    rfl
  | push => exact foreign _ other _
  | suspend => exact foreign _ other _
  | refuse => exact foreign _ other _
  | refuseDirect => exact foreign _ other _
  | _ => rfl

/-- A caller that may get a reply is as it was otherwise. -/
theorem replied_of_answer {q : Reply}
    (here : (s.callers.update d (Caller.reply w q)).get? c = some x) :
    ∃ old, s.callers.get? c = some old ∧ (x = old ∨ x = { old with phase := .replied w q }) := by
  obtain ⟨old, found, ⟨-, rfl⟩ | ⟨-, rfl⟩⟩ := Table.of_update here
  · refine ⟨old, found, ?_⟩
    unfold Caller.reply
    split
    next => exact .inr rfl
    next => exact .inl rfl
  · exact ⟨x, found, .inl rfl⟩

/-- Whose request has just come back has it from a worker that has left the directory. -/
theorem Change.back (filed : s.Filed) (sole : t.Sole) (change : Change s τ t)
    (other : τ ≠ .caller c) (here : t.callers.get? c = some x)
    (replied : x.phase = .replied w .handedBack) :
    (∃ old, s.callers.get? c = some old ∧ old.phase = .replied w .handedBack) ∨
      t.GaveBack c w := by
  have unaccepted : .accepted c w ∉ t.events := by
    refine sole.not_accepted ?_ w
    rw [phase?_of_found here, replied]
    rfl
  have answered {e : Envelope} {v : WorkerId} {r : Result}
      (here : (s.callers.update e.caller (Caller.reply v (.answered r))).get? c = some x) :
      ∃ old, s.callers.get? c = some old ∧ old.phase = .replied w .handedBack := by
    obtain ⟨old, known, rfl | rfl⟩ := replied_of_answer here
    · exact ⟨_, known, replied⟩
    · exact absurd replied (by simp)
  cases τ with
  | caller d =>
    rw [change.callers_of_caller fun same ↦ other (congrArg Task.caller same)] at here
    exact .inl ⟨x, here, replied⟩
  | worker v =>
    cases change with
    | @leave _ y reason found =>
      rw [get?_replyAll] at here
      split at here
      next listed =>
        obtain ⟨old, known, rfl⟩ := Option.map_eq_some_iff.mp here
        unfold Caller.reply at replied
        split at replied
        next waits =>
          obtain ⟨rfl, -⟩ := Phase.replied.inj replied
          refine .inr ⟨⟨_, Table.get?_set_self found, rfl⟩, fun key named ↦ ?_, unaccepted,
            fun _ ↦ ?_⟩
          · rw [find?_eq, lookUp_without] at named
            split at named
            next => exact absurd named (by simp)
            next kept =>
              obtain ⟨z, found', own⟩ := filed.named named
              obtain rfl := Option.some.inj (found.symm.trans found')
              exact kept ⟨own.symm, own ▸ named⟩
          · obtain ⟨e, inside, rfl⟩ := List.mem_map.mp listed
            refine mem_events_leave.mpr (.inl ⟨e, inside, ?_, rfl⟩)
            rw [known]
            exact waits
        next => exact .inl ⟨old, known, replied⟩
      next => exact .inl ⟨x, here, replied⟩
    | die =>
      obtain ⟨old, known, rfl | rfl⟩ := replied_of_replyAll here
      · exact .inl ⟨_, known, replied⟩
      · exact absurd replied (by simp)
    | misroute => exact .inl (answered here)
    | serve => exact .inl (answered here)
    | finish => exact .inl (answered here)
    | _ => exact .inl ⟨x, here, replied⟩

end Giving

section Routing

/-- Where the request of a caller has been: it was offered to at most three workers, to none of them
twice, and each of them but the one that the caller deals with has given it back. -/
structure Routed (s : State) (c : CallerId) (x : Caller) : Prop where
  distinct : (s.tried c).Nodup
  few : (s.tried c).length ≤ 3
  free : x.phase.partner? = none → x.phase.isEnded = false →
    (s.tried c).length + x.tries = 3 ∧ ∀ w ∈ s.tried c, s.GaveBack c w
  engaged : ∀ {w}, x.phase.partner? = some w → ∃ before, s.tried c = w :: before ∧
    before.length + x.tries = 3 ∧ x.tries ≠ 0 ∧ ∀ v ∈ before, s.GaveBack c v
  waits : ∀ {w}, x.phase = .suspended w → .queued c w ∉ s.events
  back : ∀ {w}, x.phase = .replied w .handedBack → s.GaveBack c w
  missing : ∀ {k}, x.phase = .ended (.result (.error (.notFound k))) →
    k = x.key ∧ (∀ w, .accepted c w ∉ s.events) ∧
      (s.Exhausted c ∨ x.request.createsWorker = false)

/-- What is known of the requests of all callers. -/
structure Routing (s : State) : Prop where
  sole : s.Sole
  filed : s.Filed
  heard : s.Heard
  answered : ∀ {c w k}, .answered c w (.error (.notFound k)) ∉ s.events
  queued : ∀ {c w}, .queued c w ∈ s.events → w ∈ s.tried c
  unknown : ∀ {c}, s.callers.get? c = none → s.tried c = []
  routed : ∀ {c x}, s.callers.get? c = some x → s.Routed c x

/-- Three workers that have given a request back have given it back for good. -/
theorem Exhausted.keep (h : s.Exhausted c) (tried : t.tried c = s.tried c)
    (back : ∀ {w}, s.GaveBack c w → t.GaveBack c w) : t.Exhausted c where
  three := tried ▸ h.three
  distinct := tried ▸ h.distinct
  back := fun w inside ↦ back (h.back w (tried ▸ inside))

/-- A caller that stays as it is has been where it was. -/
theorem Routed.keep (h : s.Routed c old) (tried : t.tried c = s.tried c)
    (back : ∀ {w}, s.GaveBack c w → t.GaveBack c w)
    (queued : ∀ {w}, .queued c w ∈ t.events → .queued c w ∈ s.events)
    (accepted : old.phase.isEnded = true →
      ∀ {w}, .accepted c w ∈ t.events → .accepted c w ∈ s.events)
    (phase : x.phase = old.phase) (tries : x.tries = old.tries) (key : x.key = old.key)
    (request : x.request = old.request) : t.Routed c x where
  distinct := tried ▸ h.distinct
  few := tried ▸ h.few
  free := by
    rw [phase, tries, tried]
    intro alone live
    exact (h.free alone live).imp_right fun given w inside ↦ back (given w inside)
  engaged := by
    intro w partner
    rw [phase] at partner
    rw [tries, tried]
    obtain ⟨before, same, count, more, given⟩ := h.engaged partner
    exact ⟨before, same, count, more, fun v inside ↦ back (given v inside)⟩
  waits := fun suspended new ↦ h.waits (phase ▸ suspended) (queued new)
  back := fun replied ↦ back (h.back (phase ▸ replied))
  missing := by
    intro k past
    rw [phase] at past
    rw [key, request]
    obtain ⟨same, spared, cause⟩ := h.missing past
    refine ⟨same, fun w new ↦ spared w (accepted (by rw [past]; rfl) new), ?_⟩
    exact cause.imp_left fun exhausted ↦ exhausted.keep tried back

/-- A caller that deals with no worker has been where all workers have given its request back. -/
theorem routed_of_free (phase : x.phase = .fresh ∨ x.phase = .seeking)
    (distinct : (s.tried c).Nodup) (count : (s.tried c).length + x.tries = 3)
    (given : ∀ w ∈ s.tried c, s.GaveBack c w) : s.Routed c x := by
  refine ⟨distinct, by omega, fun _ _ ↦ ⟨count, given⟩, ?_, ?_, ?_, ?_⟩ <;>
    rcases phase with phase | phase <;> rw [phase] <;> simp [Phase.partner?]

/-- A caller that deals with a worker has been where all others have given its request back. -/
theorem routed_of_engaged {before : List WorkerId} (partner : x.phase.partner? = some w)
    (tried : s.tried c = w :: before) (distinct : (s.tried c).Nodup)
    (count : before.length + x.tries = 3) (more : x.tries ≠ 0)
    (given : ∀ v ∈ before, s.GaveBack c v) (waits : x.phase = .suspended w → .queued c w ∉ s.events)
    (back : x.phase = .replied w .handedBack → s.GaveBack c w) : s.Routed c x where
  distinct := distinct
  few := by
    rw [tried, List.length_cons]
    omega
  free := fun alone ↦ absurd (partner.symm.trans alone) (by simp)
  engaged := by
    intro v same
    obtain rfl := Option.some.inj (partner.symm.trans same)
    exact ⟨before, tried, count, more, given⟩
  waits := by
    intro v suspended
    rw [suspended] at partner
    obtain rfl := Option.some.inj partner
    exact waits suspended
  back := by
    intro v replied
    rw [replied] at partner
    obtain rfl := Option.some.inj partner
    exact back replied
  missing := fun past ↦ absurd (past ▸ partner) (by simp [Phase.partner?])

/-- A caller that gets a reply, or finds room in the mailbox that it is suspended on, deals with the
same worker. -/
theorem Routed.turn (h : s.Routed c old) (phase : Phase) (tried : t.tried c = s.tried c)
    (gave : ∀ {w}, s.GaveBack c w → t.GaveBack c w) (was : old.phase.partner? = some w)
    (is : phase.partner? = some w) (waits : phase ≠ .suspended w)
    (back : phase = .replied w .handedBack → t.GaveBack c w) : t.Routed c { old with phase } := by
  obtain ⟨before, same, count, more, given⟩ := h.engaged was
  exact routed_of_engaged is (tried.trans same) (tried ▸ h.distinct) count more
    (fun v inside ↦ gave (given v inside)) (fun suspended ↦ absurd suspended waits) back

/-- A caller whose request has come back looks for another worker. -/
theorem Routed.release (h : s.Routed c old) (tried : t.tried c = s.tried c)
    (gave : ∀ {w}, s.GaveBack c w → t.GaveBack c w) (was : old.phase.partner? = some w)
    (back : t.GaveBack c w) :
    t.Routed c { old with phase := .seeking, tries := old.tries - 1 } := by
  obtain ⟨before, same, count, more, given⟩ := h.engaged was
  refine routed_of_free (.inr rfl) (tried ▸ h.distinct) ?_ fun v inside ↦ ?_
  · rw [tried, same, List.length_cons]
    dsimp only
    omega
  · rw [tried, same] at inside
    rcases List.mem_cons.mp inside with rfl | inside
    · exact back
    · exact gave (given v inside)

/-- A caller is offered to a worker that it has not been offered to, and deals with it. -/
theorem Routed.engage (h : s.Routed c old) (phase : Phase) (seeking : old.phase = .seeking)
    (more : old.tries ≠ 0) (tried : t.tried c = w :: s.tried c)
    (gave : ∀ {w}, s.GaveBack c w → t.GaveBack c w) (fresh : w ∉ s.tried c)
    (is : phase = .awaiting w ∨ phase = .suspended w ∧ .queued c w ∉ t.events) :
    t.Routed c { old with phase } := by
  obtain ⟨count, given⟩ := h.free (by rw [seeking]; rfl) (by rw [seeking]; rfl)
  have distinct : (t.tried c).Nodup := tried ▸ List.nodup_cons.mpr ⟨fresh, h.distinct⟩
  have given (v : WorkerId) (inside : v ∈ s.tried c) : t.GaveBack c v := gave (given v inside)
  rcases is with rfl | ⟨rfl, absent⟩
  · exact routed_of_engaged rfl tried distinct count more given (by simp) (by simp)
  · exact routed_of_engaged rfl tried distinct count more given (fun _ ↦ absent) (by simp)

/-- A caller is refused by a worker that it has not been offered to. -/
theorem Routed.refuse (h : s.Routed c old) (seeking : old.phase = .seeking) (more : old.tries ≠ 0)
    (tried : t.tried c = w :: s.tried c) (gave : ∀ {w}, s.GaveBack c w → t.GaveBack c w)
    (fresh : w ∉ s.tried c) (back : t.GaveBack c w) :
    t.Routed c { old with phase := .seeking, tries := old.tries - 1 } := by
  obtain ⟨count, given⟩ := h.free (by rw [seeking]; rfl) (by rw [seeking]; rfl)
  refine routed_of_free (.inr rfl) (tried ▸ List.nodup_cons.mpr ⟨fresh, h.distinct⟩) ?_
    fun v inside ↦ ?_
  · rw [tried, List.length_cons]
    dsimp only
    omega
  · rcases List.mem_cons.mp (tried ▸ inside) with rfl | inside
    · exact back
    · exact gave (given v inside)

/-- A call ends. -/
theorem Routed.finish (h : s.Routed c old) {ending : Ending} (tried : t.tried c = s.tried c)
    (missing : ∀ {k}, ending = .result (.error (.notFound k)) →
      k = old.key ∧ (∀ w, .accepted c w ∉ t.events) ∧
        (t.Exhausted c ∨ old.request.createsWorker = false)) :
    t.Routed c { old with phase := .ended ending } where
  distinct := tried ▸ h.distinct
  few := tried ▸ h.few
  free := fun _ live ↦ absurd live (by simp [Phase.isEnded])
  engaged := fun partner ↦ absurd partner (by simp [Phase.partner?])
  waits := fun suspended ↦ absurd suspended (by simp)
  back := fun replied ↦ absurd replied (by simp)
  missing := fun past ↦ missing (Phase.ended.inj past)

/-- A caller that looks for a worker has not been offered to one that is named or open. -/
theorem Routing.fresh (h : s.Routing) (offers : Offers s c x w) : w ∉ s.tried c := by
  intro inside
  have seeking := offers.seeking
  obtain ⟨-, given⟩ := (h.routed offers.found).free (by rw [seeking]; rfl) (by rw [seeking]; rfl)
  rcases offers.target with direct | ⟨-, -, -, named⟩
  · exact absurd ((h.filed.indirect offers.found).symm.trans direct) (by simp)
  · exact (given w inside).unnamed _ named

/-- A caller that looks for a worker has not been executed. -/
theorem Routing.unaccepted (h : s.Routing) (known : s.callers.get? c = some x)
    (free : x.phase = .seeking ∨ ∃ w, x.phase = .suspended w) (w : WorkerId) :
    .accepted c w ∉ s.events := by
  refine h.sole.not_accepted ?_ w
  rw [phase?_of_found known]
  rcases free with phase | ⟨v, phase⟩ <;> rw [phase] <;> rfl

/-- A worker that is closed gives a request back that it has not got, once it is out of the
directory. -/
theorem Routing.refuses (h : s.Routing) (shut : s.isClosed w = true)
    (own : ∃ y, s.workers.get? w = some y ∧ y.key = x.key)
    (directory : t.directory = s.without x.key w) (workers : t.workers = s.workers)
    (unaccepted : .accepted c w ∉ t.events) (unqueued : .queued c w ∉ t.events) :
    t.GaveBack c w := by
  obtain ⟨y, found, own⟩ := own
  refine ⟨⟨y, workers ▸ found, ?_⟩, ?_, unaccepted, fun queued ↦ absurd queued unqueued⟩
  · rw [← h.sole.owned.shut found]
    exact closed_of_isClosed shut y found
  · intro key named
    rw [find?_eq, directory, lookUp_without] at named
    split at named
    next => exact absurd named (by simp)
    next kept =>
      obtain ⟨z, found', other⟩ := h.filed.named named
      obtain rfl := Option.some.inj (found.symm.trans found')
      have same : key = x.key := other.symm.trans own
      exact kept ⟨same, same ▸ named⟩

/-- A caller that is offered to a worker may be. -/
theorem Routing.tries (h : s.Routing) (offers : Offers s c x w) : x.tries ≠ 0 := by
  rcases offers.target with direct | ⟨-, tries, -⟩
  · exact absurd ((h.filed.indirect offers.found).symm.trans direct) (by simp)
  · exact tries

/-- What a change of somebody else does to where a request has been: nothing. -/
theorem Change.routed_of_other (h : s.Routing) (change : Change s τ t) (other : τ ≠ .caller c)
    (here : t.callers.get? c = some x) : t.Routed c x := by
  have tried := change.tried_of_other other
  have gave {w : WorkerId} (back : s.GaveBack c w) : t.GaveBack c w :=
    change.gaveBack h.sole.owned back
  have queued {w : WorkerId} (new : .queued c w ∈ t.events) : .queued c w ∈ s.events :=
    (change.enqueues new).resolve_right fun own ↦ other own.1
  obtain ⟨old, known, rfl | ⟨w, r, waits, rfl⟩⟩ := change.stays other here
  · exact (h.routed known).keep tried gave queued
      (fun past _ ↦ change.accepted_of_past known past) rfl rfl rfl rfl
  · refine (h.routed known).turn (.replied w r) tried gave (by rw [waits]; rfl) rfl (by simp) ?_
    intro same
    obtain ⟨-, rfl⟩ := Phase.replied.inj same
    rcases change.back h.filed (change.sole h.sole) other here rfl with ⟨_, known', was⟩ | given
    · obtain rfl := Option.some.inj (known.symm.trans known')
      exact absurd (waits.symm.trans was) (by simp)
    · exact given

/-- No worker answers that there is no worker. -/
theorem Routing.answers (h : s.Routing) (known : s.callers.get? c = some x)
    (replied : x.phase = .replied w (.answered (.error (.notFound key)))) : False :=
  h.answered (h.heard known replied)

/-- Every change keeps track of where requests have been. -/
theorem Change.routed (h : s.Routing) (change : Change s τ t) (here : t.callers.get? c = some x) :
    t.Routed c x := by
  refine if own : τ = .caller c then ?_ else change.routed_of_other h own here
  have gave {w : WorkerId} (back : s.GaveBack c w) : t.GaveBack c w :=
    change.gaveBack h.sole.owned back
  have sole := change.sole h.sole
  have offered {w : WorkerId} (earlier : List Event) :
      (Event.offered c w :: earlier).filterMap (Event.offer? c) =
        w :: earlier.filterMap (Event.offer? c) :=
    List.filterMap_cons_some (if_pos rfl)
  have direct {old : Caller} {v : WorkerId} (found : s.callers.get? c = some old)
      (direct : old.direct = some v) : False :=
    absurd ((h.filed.indirect found).symm.trans direct) (by simp)
  subst own
  cases change with
  | rest => exact (h.routed here).keep rfl id id (fun _ _ ↦ id) rfl rfl rfl rfl
  | begin found fresh =>
    obtain rfl := Table.eq_of_set found here
    have was := h.routed found
    obtain ⟨count, given⟩ := was.free (by rw [fresh]; rfl) (by rw [fresh]; rfl)
    exact routed_of_free (.inr rfl) was.distinct count fun w inside ↦ gave (given w inside)
  | beginDirect found fresh indirect => exact (direct found indirect).elim
  | spawn found seeking =>
    exact (h.routed here).keep rfl gave (by simp [events]) (fun _ ↦ by simp [events]) rfl rfl rfl
      rfl
  | push offers found opened =>
    obtain rfl := Table.eq_of_set offers.found here
    exact (h.routed offers.found).engage _ offers.seeking (h.tries offers) (offered _) gave
      (h.fresh offers) (.inl rfl)
  | suspend offers found opened =>
    obtain rfl := Table.eq_of_set offers.found here
    refine (h.routed offers.found).engage _ offers.seeking (h.tries offers) (offered _) gave
      (h.fresh offers) (.inr ⟨rfl, fun queued ↦ h.fresh offers (h.queued ?_)⟩)
    simpa [events] using queued
  | refuse offers shut =>
    obtain rfl := Table.eq_of_set offers.found here
    refine (h.routed offers.found).refuse offers.seeking (h.tries offers) (offered _) gave
      (h.fresh offers) (h.refuses shut (h.filed.aims offers.found (.inl offers)) rfl rfl ?_ ?_)
    · simpa [events] using h.unaccepted offers.found (.inl offers.seeking) _
    · exact fun queued ↦ h.fresh offers (h.queued (by simpa [events] using queued))
  | refuseDirect offers shut indirect => exact (direct offers.found indirect).elim
  | occupy known suspended =>
    obtain rfl := Table.eq_of_set known here
    exact (h.routed known).turn _ rfl gave (by rw [suspended]; rfl) rfl (by simp) (by simp)
  | turnAway found suspended shut =>
    obtain rfl := Table.eq_of_set found here
    refine (h.routed found).release rfl gave (by rw [suspended]; rfl)
      (h.refuses shut (h.filed.aims found (.inr suspended)) rfl rfl ?_ ?_)
    · exact h.unaccepted found (.inr ⟨_, suspended⟩) _
    · exact (h.routed found).waits suspended
  | retry found replied =>
    obtain rfl := Table.eq_of_set found here
    exact (h.routed found).release rfl gave (by rw [replied]; rfl)
      (gave ((h.routed found).back replied))
  | limit found waiting =>
    obtain rfl := Table.eq_of_set found here
    exact (h.routed found).keep rfl gave id (fun _ _ ↦ id) rfl rfl rfl rfl
  | conclude found cause =>
    obtain rfl := Table.eq_of_set found here
    refine (h.routed found).finish rfl ?_
    rintro k rfl
    cases cause with
    | result replied => exact (h.answers found replied).elim
  | notFound found seeking indirect cause =>
    obtain rfl := Table.eq_of_set found here
    have was := h.routed found
    refine was.finish rfl fun same ↦ ⟨?_, fun w ↦ ?_, ?_⟩
    · exact (Failure.notFound.inj (Except.error.inj (Ending.result.inj same))).symm
    · simpa [events] using h.unaccepted found (.inl seeking) w
    · rcases cause with last | ⟨-, -, creates⟩
      · obtain ⟨count, given⟩ := was.free (by rw [seeking]; rfl) (by rw [seeking]; rfl)
        have three : (s.tried c).length = 3 := by omega
        exact .inl ⟨three, was.distinct, fun w inside ↦ gave (given w inside)⟩
      · exact .inr creates
  | lose found =>
    obtain rfl := Table.eq_of_set found here
    exact (h.routed found).finish rfl (by simp)
  | giveUp found live apart cause =>
    obtain rfl := Table.eq_of_set found here
    refine (h.routed found).finish rfl ?_
    rintro k rfl
    cases cause
  | withdraw found suspended cause =>
    obtain rfl := Table.eq_of_set found here
    refine (h.routed found).finish rfl ?_
    rintro k rfl
    cases cause

/-- An envelope is put into a mailbox only when its caller is offered to the worker, or is suspended
on the mailbox. -/
theorem Change.queued_tried (h : s.Routing) (change : Change s τ t)
    (new : .queued c w ∈ t.events) : w ∈ t.tried c := by
  have kept (old : .queued c w ∈ s.events) : w ∈ t.tried c := by
    obtain ⟨event, recorded, told⟩ := List.mem_filterMap.mp (h.queued old)
    exact List.mem_filterMap.mpr ⟨event, change.later.events_subset recorded, told⟩
  cases change with
  | leave => exact kept (by simpa using mem_events_leave.mp new)
  | push offers =>
    simp only [events, List.map_cons, List.mem_cons, Event.queued.injEq, reduceCtorEq,
      false_or] at new
    rcases new with ⟨rfl, rfl⟩ | old
    · exact List.mem_filterMap.mpr ⟨.offered c w, by simp [events], if_pos rfl⟩
    · exact kept old
  | occupy known suspended =>
    simp only [events, List.map_cons, List.mem_cons, Event.queued.injEq] at new
    rcases new with ⟨rfl, rfl⟩ | old
    · obtain ⟨before, tried, -⟩ := (h.routed known).engaged (w := w) (by rw [suspended]; rfl)
      have inside : w ∈ s.tried c := by simp [tried]
      exact inside
    · exact kept old
  | _ => exact kept (by simpa [events] using new)

/-- A worker never answers that there is no worker. -/
theorem Answers.found {worker : Worker} {e : Envelope} {r : Result} {identity : Option Identity}
    (answers : Answers s worker e (r, identity)) : r ≠ .error (.notFound key) := by
  rintro rfl
  cases answers with
  | served serves => exact absurd (serves.refuses rfl) (by simp [Failure.isWorkers])
  | finished finishes => exact absurd (finishes.refuses rfl) (by simp [Failure.isWorkers])

/-- Only a caller who is there does anything. -/
theorem Change.known (change : Change s (.caller c) t) :
    t = s ∨ ∃ x, s.callers.get? c = some x := by
  cases change with
  | rest => exact .inl rfl
  | push offers => exact .inr ⟨_, offers.found⟩
  | suspend offers => exact .inr ⟨_, offers.found⟩
  | refuse offers => exact .inr ⟨_, offers.found⟩
  | refuseDirect offers => exact .inr ⟨_, offers.found⟩
  | _ => exact .inr ⟨_, ‹s.callers.get? c = some _›⟩

/-- Every change keeps track of the requests of all callers. -/
theorem Change.routing (h : s.Routing) (change : Change s τ t) : t.Routing where
  sole := change.sole h.sole
  filed := change.filed h.filed
  heard := change.heard h.heard
  answered := by
    intro c w k new
    rcases change.answered new with old | ⟨worker, e, identity, -, -, -, answers⟩
    · exact h.answered old
    · exact answers.found rfl
  queued := change.queued_tried h
  unknown := by
    intro c unknown
    have missing : s.callers.get? c = none := by
      cases known : s.callers.get? c with
      | none => rfl
      | some x =>
        obtain ⟨y, here, -⟩ := change.later.callers c x known
        exact absurd (here.symm.trans unknown) (by simp)
    by_cases own : τ = .caller c
    · subst own
      rcases change.known with rfl | ⟨x, known⟩
      · exact h.unknown missing
      · exact absurd (missing.symm.trans known) (by simp)
    · rw [change.tried_of_other own]
      exact h.unknown missing
  routed := change.routed h

/-- Every use keeps track of the requests of all callers. -/
theorem Use.routing (h : s.Routing) (use : Use s t) : t.Routing where
  sole := use.sole h.sole
  filed := use.filed h.filed
  heard := use.heard h.heard
  answered := fun new ↦ h.answered (use.recorded (by simp) (by simp) new)
  queued := fun new ↦ by
    rw [use.tried]
    exact h.queued (use.recorded (by simp) (by simp) new)
  unknown := by
    intro c unknown
    rw [use.tried]
    refine h.unknown ?_
    cases known : s.callers.get? c with
    | none => rfl
    | some x =>
      obtain ⟨y, here, -⟩ := use.later.callers c x known
      exact absurd (here.symm.trans unknown) (by simp)
  routed := by
    intro c x here
    have tried := use.tried c
    have gave {w : WorkerId} (back : s.GaveBack c w) : t.GaveBack c w := use.gaveBack back
    rcases use.becomes here with ⟨rfl, key, request, rfl⟩ | ⟨old, known, same⟩
    · have none : s.tried s.callers.size = [] := h.unknown (by simp [Table.get?, Table.size])
      exact routed_of_free (.inl rfl) (by simp [tried, none]) (by simp [tried, none])
        (by simp [tried, none])
    · rcases same with rfl | rfl <;>
        exact (h.routed known).keep tried gave (use.recorded (by simp) (by simp))
          (fun _ ↦ use.recorded (by simp) (by simp)) rfl rfl rfl rfl

/-- No request has been anywhere at the start. -/
theorem routing_start (policy : Policy) (connector : Ledger.Connector) :
    (start policy connector).Routing where
  sole := sole_start policy connector
  filed := filed_start policy connector
  heard := heard_start policy connector
  answered := List.not_mem_nil
  queued := fun new ↦ absurd new List.not_mem_nil
  unknown := fun _ ↦ rfl
  routed := fun known ↦ absurd ((Table.get?_empty _).symm.trans known) (by simp)

/-- Where requests have been is known in every state that can come about. -/
theorem Reachable.routing (h : s.Reachable) : s.bare.Routing :=
  Reachable.invariant (P := Routing) routing_start (fun h change ↦ change.routing h)
    (fun h use ↦ use.routing h) h

end Routing

end State

end Signatory.Service
