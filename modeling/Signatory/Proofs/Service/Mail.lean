import Signatory.Proofs.Service.Directory
import Signatory.Proofs.Service.Turns

/-!
# What goes through a mailbox

A worker takes envelopes out of its mailbox in the order in which they were put there. It accepts
those whose callers wait for the reply and skips those whose callers have left; what is still in the
mailbox when it leaves is not taken any more.
-/

namespace Signatory.Service

/-- Whose envelope an event puts into the mailbox of a worker. -/
def Event.entry? (w : WorkerId) : Event → Option CallerId
  | .queued c v => if v = w then some c else none
  | _ => none

/-- Whose envelope a worker takes out of its mailbox in an event, and whether it accepts it. -/
def Event.taking? (w : WorkerId) : Event → Option (CallerId × Bool)
  | .accepted c v => if v = w then some (c, true) else none
  | .skipped c v => if v = w then some (c, false) else none
  | _ => none

/-- Of some events, the latest first, each acceptance is of a request whose caller has not left yet,
and whoever is skipped has left. -/
def Heeds : List Event → Prop
  | [] => True
  | .accepted c _ :: earlier => (∀ e, .ended c e ∉ earlier) ∧ Heeds earlier
  | .skipped c _ :: earlier => (∃ e, .ended c e ∈ earlier) ∧ Heeds earlier
  | _ :: earlier => Heeds earlier

/-- Whether a call is over. -/
def isPast (callers : Table Caller) (c : CallerId) : Bool :=
  (phase? callers c).any (·.isEnded)

namespace State

variable {s t : State} {τ : Task} {w v : WorkerId} {worker y z : Worker} {e : Envelope}
  {c d : CallerId} {x next : Caller} {events earlier : List Event}

/-- Whose envelopes were put into the mailbox of a worker, the earliest first. -/
def entries (s : State) (w : WorkerId) : List CallerId :=
  (s.events.filterMap (Event.entry? w)).reverse

/-- Whose envelopes a worker has taken out of its mailbox, the earliest first, and whether it has
accepted them. -/
def takings (s : State) (w : WorkerId) : List (CallerId × Bool) :=
  (s.events.filterMap (Event.taking? w)).reverse

/-- A worker accepts some of what it takes out of its mailbox, in the same order. -/
theorem acceptances_eq (s : State) (w : WorkerId) :
    s.acceptances w = ((s.takings w).filter (·.2)).map (·.1) := by
  rw [acceptances, takings]
  generalize s.events = events
  induction events with
  | nil => rfl
  | cons event events ih =>
    cases event with
    | accepted c v =>
      rw [acceptances_accepted, ih, List.filterMap_cons, Event.taking?]
      by_cases here : v = w
      · rw [if_pos here, if_pos here, List.reverse_cons, List.filter_append, List.map_append]
        rfl
      · rw [if_neg here, if_neg here, List.append_nil]
    | skipped c v =>
      rw [List.filterMap_cons, List.filterMap_cons, Event.taking?]
      by_cases here : v = w
      · rw [if_pos here, List.reverse_cons, List.filter_append, List.map_append]
        exact ih.trans (List.append_nil _).symm
      · rw [if_neg here]
        exact ih
    | _ => exact ih

section Past

variable {callers : Table Caller}

theorem isPast_set (found : callers.get? c = some x) (d : CallerId) :
    isPast (callers.set c next) d = if c = d then next.phase.isEnded else isPast callers d := by
  unfold isPast
  rw [phase?_set found]
  split
  next => rfl
  next => rfl

/-- A call that is not over does not end by going on. -/
theorem isPast_set_live (found : callers.get? c = some x) (live : x.phase.isEnded = false)
    (goes : next.phase.isEnded = false) (d : CallerId) :
    isPast (callers.set c next) d = isPast callers d := by
  rw [isPast_set found]
  split
  next same =>
    rw [← same, isPast, phase?_of_found found, goes]
    exact live.symm
  next => rfl

/-- No call ends because a reply is sent. -/
theorem isPast_replyAll (w : WorkerId) (r : Reply) (es : List Envelope) (callers : Table Caller)
    (c : CallerId) : isPast (replyAll w r es callers) c = isPast callers c := by
  unfold isPast
  rw [Owned.phase?_replyAll]
  split
  next both =>
    rw [eq_awaiting both.2]
    rfl
  next => rfl

theorem isPast_reply (w : WorkerId) (r : Reply) (callers : Table Caller) (c d : CallerId) :
    isPast (callers.update c (Caller.reply w r)) d = isPast callers d :=
  isPast_replyAll w r [⟨"", .syncNonce, c⟩] callers d

end Past

/-- Whoever is not awaited any more by a worker that has an envelope of theirs has left. -/
theorem isPast_of_gone (owned : Owned s.workers s.callers) (found : s.workers.get? w = some y)
    (inside : c ∈ y.held) : isPast s.callers c = !s.awaits c w := by
  obtain ⟨x, known, phase⟩ := phase_of_held owned found inside
  unfold isPast awaits
  rw [phase?_of_found known, known]
  dsimp only
  rw [Option.any_some]
  rcases phase with awaiting | past
  · rw [awaiting]
    simp [Phase.isEnded]
  · rw [past]
    cases phase : x.phase with
    | ended e => rfl
    | _ => exact absurd past (by rw [phase]; simp [Phase.isEnded])

/-- A call is over exactly if its end is recorded, after every change. -/
theorem Change.past (h : ∀ c, isPast s.callers c = true ↔ ∃ e, .ended c e ∈ s.events)
    (change : Change s τ t) (c : CallerId) :
    isPast t.callers c = true ↔ ∃ e, .ended c e ∈ t.events := by
  have still (callers : isPast t.callers c = isPast s.callers c)
      (events : ∀ e, .ended c e ∈ t.events ↔ .ended c e ∈ s.events) :
      isPast t.callers c = true ↔ ∃ e, .ended c e ∈ t.events := by
    rw [callers, h]
    exact exists_congr fun e ↦ (events e).symm
  have goes {d : CallerId} {x next : Caller} (found : s.callers.get? d = some x)
      (callers : t.callers = s.callers.set d next) (live : x.phase.isEnded = false)
      (goes : next.phase.isEnded = false)
      (events : ∀ e, .ended c e ∈ t.events ↔ .ended c e ∈ s.events) :
      isPast t.callers c = true ↔ ∃ e, .ended c e ∈ t.events :=
    still (by rw [callers, isPast_set_live found live goes]) events
  have ends (ending : Ending) {d : CallerId} {x next : Caller}
      (found : s.callers.get? d = some x) (callers : t.callers = s.callers.set d next)
      (past : next.phase.isEnded = true)
      (events : ∀ e, .ended c e ∈ t.events ↔ c = d ∧ e = ending ∨ .ended c e ∈ s.events) :
      isPast t.callers c = true ↔ ∃ e, .ended c e ∈ t.events := by
    rw [callers, isPast_set found, past]
    by_cases own : d = c
    · rw [if_pos own]
      exact ⟨fun _ ↦ ⟨ending, (events ending).mpr (.inl ⟨own.symm, rfl⟩)⟩, fun _ ↦ rfl⟩
    · rw [if_neg own, h]
      refine exists_congr fun e ↦ ((events e).trans (or_iff_right ?_)).symm
      exact fun same ↦ own same.1.symm
  cases change with
  | leave =>
    refine still (isPast_replyAll _ _ _ _ _) fun e ↦ ?_
    rw [State.events, mem_events_leave]
    simp
  | die => exact still (isPast_replyAll _ _ _ _ _) fun e ↦ by simp [State.events]
  | misroute => exact still (isPast_reply _ _ _ _ _) fun e ↦ by simp [State.events]
  | serve => exact still (isPast_reply _ _ _ _ _) fun e ↦ by simp [State.events]
  | finish => exact still (isPast_reply _ _ _ _ _) fun e ↦ by simp [State.events]
  | begin found fresh =>
    exact goes found rfl (by rw [fresh]; rfl) rfl fun e ↦ by simp [State.events]
  | beginDirect found fresh =>
    exact goes found rfl (by rw [fresh]; rfl) rfl fun e ↦ by simp [State.events]
  | push offers =>
    exact goes offers.found rfl (by rw [offers.seeking]; rfl) rfl fun e ↦ by simp [State.events]
  | suspend offers =>
    exact goes offers.found rfl (by rw [offers.seeking]; rfl) rfl fun e ↦ by simp [State.events]
  | refuse offers =>
    exact goes offers.found rfl (by rw [offers.seeking]; rfl) rfl fun e ↦ by simp [State.events]
  | refuseDirect offers => exact ends .closed offers.found rfl rfl fun e ↦ by simp [State.events]
  | occupy known suspended =>
    exact goes known rfl (by rw [suspended]; rfl) rfl fun e ↦ by simp [State.events]
  | turnAway found suspended =>
    exact goes found rfl (by rw [suspended]; rfl) rfl fun e ↦ by simp [State.events]
  | retry found replied =>
    exact goes found rfl (by rw [replied]; rfl) rfl fun e ↦ by simp [State.events]
  | @limit d x v _ _ found waiting =>
    have live : x.phase.isEnded = false := by
      rcases waiting with suspended | awaiting
      · rw [suspended]
        rfl
      · rw [awaiting]
        rfl
    exact goes found rfl live live fun e ↦ by simp [State.events]
  | @conclude d x ending found => exact ends ending found rfl rfl fun e ↦ by simp [State.events]
  | @notFound d x found =>
    exact ends (.result (.error (.notFound x.key))) found rfl rfl fun e ↦ by simp [State.events]
  | @lose d x v found =>
    exact ends (.result (.error (.violation (.workerStopped x.key x.request.operation)))) found rfl
      rfl fun e ↦ by simp [State.events]
  | @giveUp d x ending found => exact ends ending found rfl rfl fun e ↦ by simp [State.events]
  | @withdraw d x v ending found => exact ends ending found rfl rfl fun e ↦ by simp [State.events]
  | _ => exact still rfl fun e ↦ by simp [State.events]

/-- What comes back to callers is neither accepted nor skipped. -/
theorem heeds_returns (time : Nat) (v : WorkerId) (es : List Envelope) (callers : Table Caller) :
    Heeds ((returns time v es callers).map (·.event) ++ earlier) ↔ Heeds earlier := by
  have others := returned time v es callers
  generalize (returns time v es callers).map (·.event) = later at others
  induction later with
  | nil => exact Iff.rfl
  | cons event later ih =>
    obtain ⟨c, rfl⟩ := others event List.mem_cons_self
    exact ih fun event inside ↦ others event (List.mem_cons_of_mem _ inside)

/-- A worker accepts the request of a caller who has not left, and skips one who has. -/
theorem Change.heeds (owned : Owned s.workers s.callers)
    (past : ∀ c, isPast s.callers c = true ↔ ∃ e, .ended c e ∈ s.events) (h : Heeds s.events)
    (change : Change s τ t) : Heeds t.events := by
  have accepted {v : WorkerId} {worker : Worker} {e : Envelope} {rest : Mailbox} {deadline : Alarm}
      (accepts : Accepts s v worker e rest deadline) : Heeds (.accepted e.caller v :: s.events) := by
    refine ⟨fun ending recorded ↦ ?_, h⟩
    have left := (past e.caller).mpr ⟨ending, recorded⟩
    rw [isPast_of_gone owned accepts.found (queue_subset_held
      (List.mem_map_of_mem accepts.toTakes.inside)), accepts.waits] at left
    exact absurd left (by simp)
  cases change with
  | leave =>
    rw [State.events, List.map_append]
    exact (heeds_returns _ _ _ _).mpr h
  | skip takes gone =>
    refine ⟨(past _).mp ?_, h⟩
    rw [isPast_of_gone owned takes.found (queue_subset_held (List.mem_map_of_mem takes.inside)), gone]
    rfl
  | connect accepts => exact accepted accepts
  | lookup accepts => exact accepted accepts
  | serve accepts => exact accepted accepts
  | _ => exact h

/-- A worker has taken out of its mailbox what was put there, in the same order, but for what is
still there or was when it left. -/
structure Lined (s : State) (w : WorkerId) (rest : List CallerId) : Prop where
  entries : s.entries w = (s.takings w).map (·.1) ++ rest
  unused : s.workers.get? w = none → s.entries w = []
  still : ∀ y, s.workers.get? w = some y → y.mailbox.closed = false →
    rest = y.mailbox.queue.map (·.caller)

section Line

variable {rest entered : List CallerId} {taken : List (CallerId × Bool)}

theorem entries_queued :
    ((Event.queued c v :: earlier).filterMap (Event.entry? w)).reverse =
      (earlier.filterMap (Event.entry? w)).reverse ++ if v = w then [c] else [] :=
  reverse_filterMap_cons rfl

theorem takings_accepted :
    ((Event.accepted c v :: earlier).filterMap (Event.taking? w)).reverse =
      (earlier.filterMap (Event.taking? w)).reverse ++ if v = w then [(c, true)] else [] :=
  reverse_filterMap_cons rfl

theorem takings_skipped :
    ((Event.skipped c v :: earlier).filterMap (Event.taking? w)).reverse =
      (earlier.filterMap (Event.taking? w)).reverse ++ if v = w then [(c, false)] else [] :=
  reverse_filterMap_cons rfl

/-- What does not concern the mailbox of a worker leaves it as it was. -/
theorem Lined.same (h : s.Lined w rest) (later : s.Later t) (entries : t.entries w = s.entries w)
    (takings : t.takings w = s.takings w)
    (kept : ∀ z, t.workers.get? w = some z → z.mailbox.closed = false →
      (s.workers.get? w = none ∧ z.mailbox.queue = []) ∨
        ∃ y, s.workers.get? w = some y ∧ y.mailbox.closed = false ∧
          z.mailbox.queue = y.mailbox.queue) : t.Lined w rest where
  entries := by
    rw [entries, takings]
    exact h.entries
  unused := by
    intro missing
    rw [entries]
    apply h.unused
    cases found : s.workers.get? w with
    | none => rfl
    | some y =>
      obtain ⟨z, there, -⟩ := later.workers w y found
      exact absurd (missing.symm.trans there) (by simp)
  still := by
    intro z there opened
    rcases kept z there opened with ⟨missing, empty⟩ | ⟨y, found, opened, queue⟩
    · have none := h.entries.symm.trans (h.unused missing)
      rw [(List.append_eq_nil_iff.mp none).2, empty]
      rfl
    · rw [queue]
      exact h.still y found opened

/-- A worker that changes has taken out what is gone, and what is new was put there. -/
theorem Lined.set (h : s.Lined w rest) (entered : List CallerId) (taken : List (CallerId × Bool))
    (found : s.workers.get? v = some y) (workers : t.workers = s.workers.set v z)
    (entries : t.entries w = s.entries w ++ if v = w then entered else [])
    (takings : t.takings w = s.takings w ++ if v = w then taken else [])
    (opened : z.mailbox.closed = false → y.mailbox.closed = false ∧
      y.mailbox.queue.map (·.caller) ++ entered =
        taken.map (·.1) ++ z.mailbox.queue.map (·.caller))
    (shut : z.mailbox.closed = true → entered = [] ∧ taken = []) :
    ∃ rest, t.Lined w rest := by
  by_cases here : v = w
  · subst here
    have there : t.workers.get? v = some z := by
      rw [workers, Table.get?_set_self found]
    have missing (none : t.workers.get? v = none) : t.entries v = [] :=
      absurd (none.symm.trans there) (by simp)
    rw [if_pos rfl] at entries takings
    cases closed : z.mailbox.closed with
    | false =>
      obtain ⟨before, balance⟩ := opened closed
      refine ⟨z.mailbox.queue.map (·.caller), ?_, missing, fun z' there' _ ↦ ?_⟩
      · rw [entries, takings, h.entries, h.still y found before, List.append_assoc, balance,
          List.map_append, List.append_assoc]
      · rw [Option.some.inj (there.symm.trans there')]
    | true =>
      obtain ⟨rfl, rfl⟩ := shut closed
      refine ⟨rest, ?_, missing, fun z' there' opened ↦ ?_⟩
      · rw [entries, takings, List.append_nil, List.append_nil]
        exact h.entries
      · rw [Option.some.inj (there.symm.trans there')] at closed
        exact absurd (closed.symm.trans opened) (by simp)
  · rw [if_neg here, List.append_nil] at entries takings
    refine ⟨rest, ?_, ?_, ?_⟩
    · rw [entries, takings]
      exact h.entries
    · rw [workers, Table.get?_set_ne here, entries]
      exact h.unused
    · rw [workers, Table.get?_set_ne here]
      exact h.still

/-- A worker whose mailbox is the same in what is there and in whether it is open. -/
theorem Lined.keep (h : s.Lined w rest) (found : s.workers.get? v = some y)
    (workers : t.workers = s.workers.set v z) (queue : z.mailbox.queue = y.mailbox.queue)
    (closed : z.mailbox.closed = y.mailbox.closed) (entries : t.entries w = s.entries w)
    (takings : t.takings w = s.takings w) : ∃ rest, t.Lined w rest := by
  refine h.set [] [] found workers ?_ ?_ (fun opened ↦ ⟨closed ▸ opened, ?_⟩) fun _ ↦ ⟨rfl, rfl⟩
  · rw [entries, ite_self, List.append_nil]
  · rw [takings, ite_self, List.append_nil]
  · rw [queue, List.append_nil]
    rfl

/-- A worker that takes an envelope takes the first that is there. -/
theorem Lined.take {e : Envelope} {left : Mailbox} {accepted : Bool} (h : s.Lined w rest)
    (owned : Owned s.workers s.callers) (takes : Takes s v y e left)
    (workers : t.workers = s.workers.set v z) (mailbox : z.mailbox = left.grant.2)
    (entries : t.entries w = s.entries w)
    (takings : t.takings w = s.takings w ++ if v = w then [(e.caller, accepted)] else []) :
    ∃ rest, t.Lined w rest := by
  have still : z.mailbox.closed = false := by
    rw [mailbox, takes.closed]
    exact takes.opened owned
  refine h.set [] [(e.caller, accepted)] takes.found workers ?_ takings
    (fun _ ↦ ⟨takes.opened owned, ?_⟩) fun shut ↦ absurd (still.symm.trans shut) (by simp)
  · rw [entries, ite_self, List.append_nil]
  · rw [mailbox, Mailbox.grant_queue, Mailbox.queue_of_pop? takes.popped, List.append_nil]
    rfl

/-- An envelope that is put into an open mailbox comes last there. -/
theorem Lined.put (h : s.Lined w rest) (found : s.workers.get? v = some y)
    (workers : t.workers = s.workers.set v z) (opened : y.mailbox.closed = false)
    (queue : z.mailbox.queue.map (·.caller) = y.mailbox.queue.map (·.caller) ++ [c])
    (closed : z.mailbox.closed = y.mailbox.closed)
    (entries : t.entries w = s.entries w ++ if v = w then [c] else [])
    (takings : t.takings w = s.takings w) : ∃ rest, t.Lined w rest := by
  refine h.set [c] [] found workers entries ?_ (fun _ ↦ ⟨opened, queue.symm⟩)
    fun shut ↦ absurd ((closed.trans opened).symm.trans shut) (by simp)
  rw [takings, ite_self, List.append_nil]

/-- Nothing is said any more about what is in a closed mailbox. -/
theorem Lined.close (h : s.Lined w rest) (found : s.workers.get? v = some y)
    (workers : t.workers = s.workers.set v z) (closed : z.mailbox.closed = true)
    (entries : t.entries w = s.entries w) (takings : t.takings w = s.takings w) :
    ∃ rest, t.Lined w rest := by
  refine h.set [] [] found workers ?_ ?_ (fun opened ↦ ?_) fun _ ↦ ⟨rfl, rfl⟩
  · rw [entries, ite_self, List.append_nil]
  · rw [takings, ite_self, List.append_nil]
  · exact absurd (closed.symm.trans opened) (by simp)

/-- Every change takes out of a mailbox what comes first there, and puts envelopes at its end. -/
theorem Change.lined (owned : Owned s.workers s.callers) (filed : s.Filed) (h : s.Lined w rest)
    (change : Change s τ t) : ∃ rest, t.Lined w rest := by
  have later := change.later
  cases change with
  | leave found =>
    refine h.close found rfl rfl ?_ ?_
    · rw [State.entries, State.events, List.map_append, List.filterMap_append,
        filterMap_returns _ _ _ _ fun _ ↦ rfl]
      rfl
    · rw [State.takings, State.events, List.map_append, List.filterMap_append,
        filterMap_returns _ _ _ _ fun _ ↦ rfl]
      rfl
  | die found => exact h.close found rfl rfl rfl rfl
  | skip takes => exact h.take owned takes rfl rfl rfl takings_skipped
  | misroute takes waits foreign =>
    exact absurd (filed.matched takes.found (takes.envelopes ▸ List.mem_cons_self)) foreign
  | connect accepts => exact h.take owned accepts.toTakes rfl rfl rfl takings_accepted
  | lookup accepts => exact h.take owned accepts.toTakes rfl rfl rfl takings_accepted
  | serve accepts => exact h.take owned accepts.toTakes rfl rfl rfl takings_accepted
  | finish found => exact h.keep found rfl rfl rfl rfl rfl
  | again found => exact h.keep found rfl rfl rfl rfl rfl
  | spawn =>
    refine ⟨rest, h.same later rfl rfl fun z there opened ↦ ?_⟩
    rcases Table.of_push there with ⟨-, rfl, missing⟩ | there
    · exact .inl ⟨missing, rfl⟩
    · exact .inr ⟨z, there, opened, rfl⟩
  | push offers found opened =>
    exact h.put found rfl opened (by rw [Mailbox.push, List.map_append]; rfl) rfl entries_queued rfl
  | suspend offers found => exact h.keep found rfl rfl rfl rfl rfl
  | occupy known suspended found opened =>
    exact h.put found rfl opened (by rw [Mailbox.occupy, List.map_append]; rfl) rfl entries_queued rfl
  | withdraw =>
    refine ⟨rest, h.same later rfl rfl fun z there opened ↦ .inr ?_⟩
    obtain ⟨y, found, ⟨-, rfl⟩ | ⟨-, rfl⟩⟩ := Table.of_update there
    · rw [Mailbox.grant_closed] at opened
      exact ⟨y, found, opened, Mailbox.grant_queue _⟩
    · exact ⟨z, found, opened, rfl⟩
  | _ => exact ⟨rest, h.same later rfl rfl fun z there opened ↦ .inr ⟨z, there, opened, rfl⟩⟩

end Line

/-- No call ends because of a use. -/
theorem Use.isPast_eq (use : Use s t) (c : CallerId) : isPast t.callers c = isPast s.callers c := by
  unfold isPast phase?
  cases there : t.callers.get? c with
  | none =>
    cases found : s.callers.get? c with
    | none => rfl
    | some x =>
      obtain ⟨next, known, -⟩ := use.later.callers c x found
      exact absurd (there.symm.trans known) (by simp)
  | some x =>
    rcases use.becomes there with ⟨new, key, request, rfl⟩ | ⟨old, found, rfl | rfl⟩
    · rw [new, Table.get?_size]
      rfl
    · rw [found]
    · rw [found]
      rfl

/-- No use puts in an envelope or takes one out, and a caller that leaves is recorded. -/
theorem Use.entries_eq (use : Use s t) (w : WorkerId) :
    t.entries w = s.entries w ∧ t.takings w = s.takings w := by
  unfold entries takings
  rcases use.events_eq with same | ⟨v, more⟩ | more
  · exact ⟨by rw [same], by rw [same]⟩
  · exact ⟨by rw [more]; rfl, by rw [more]; rfl⟩
  · exact ⟨by rw [more]; rfl, by rw [more]; rfl⟩

/-- What has gone through the mailboxes so far is in order. -/
structure Mailed (s : State) : Prop extends Ordered s where
  past : ∀ c, isPast s.callers c = true ↔ ∃ e, .ended c e ∈ s.events
  heeds : Heeds s.events
  lined : ∀ w, ∃ rest, s.Lined w rest

/-- Nothing has gone through any mailbox at the start. -/
theorem mailed_start (policy : Policy) (connector : Ledger.Connector) :
    (start policy connector).Mailed where
  toOrdered := ordered_start policy connector
  past := by
    intro c
    have missing : (start policy connector).callers.get? c = none := Table.get?_empty c
    rw [isPast, phase?, missing]
    refine ⟨fun past ↦ absurd past (by simp), ?_⟩
    rintro ⟨_, recorded⟩
    exact absurd recorded List.not_mem_nil
  heeds := trivial
  lined := fun w ↦ ⟨[], rfl, fun _ ↦ rfl, fun y found ↦ by simp [start] at found⟩

/-- Every change leaves in order what goes through the mailboxes. -/
theorem Change.mailed (h : s.Mailed) (change : Change s τ t) : t.Mailed where
  toOrdered := change.ordered h.toOrdered
  past := change.past h.past
  heeds := change.heeds h.owned h.past h.heeds
  lined := fun w ↦ (h.lined w).elim fun _ ↦ change.lined h.owned h.filed

/-- Every use leaves in order what goes through the mailboxes. -/
theorem Use.mailed (h : s.Mailed) (use : Use s t) : t.Mailed where
  toOrdered := use.ordered h.toOrdered
  past := by
    intro c
    rw [use.isPast_eq, h.past]
    rcases use.events_eq with same | ⟨v, more⟩ | more
    · rw [same]
    · rw [more]
      simp
    · rw [more]
      simp
  heeds := by
    rcases use.events_eq with same | ⟨v, more⟩ | more
    · exact same ▸ h.heeds
    · exact more ▸ h.heeds
    · exact more ▸ h.heeds
  lined := by
    intro w
    obtain ⟨rest, before⟩ := h.lined w
    obtain ⟨entries, takings⟩ := use.entries_eq w
    refine ⟨rest, before.same use.later entries takings fun z there opened ↦ .inr ?_⟩
    obtain ⟨old, found, rfl | rfl⟩ := use.of_worker there
    · exact ⟨_, found, opened, rfl⟩
    · exact ⟨old, found, opened, rfl⟩

/-- What goes through the mailboxes is in order in every state that can come about. -/
theorem Reachable.mailed (h : s.Reachable) : s.Mailed := by
  have kept := Reachable.invariant (P := Mailed) mailed_start (fun h change ↦ change.mailed h)
    (fun h use ↦ use.mailed h) h
  refine ⟨h.ordered, kept.past, kept.heeds, fun w ↦ ?_⟩
  obtain ⟨rest, lined⟩ := kept.lined w
  exact ⟨rest, lined.entries, lined.unused, lined.still⟩

end State

/-- Whoever was skipped had left before. -/
theorem Heeds.of_skipped {later earlier : List Event} {c : CallerId} {w : WorkerId}
    (h : Heeds (later ++ .skipped c w :: earlier)) : ∃ e, .ended c e ∈ earlier := by
  induction later with
  | nil => exact h.1
  | cons event later ih =>
    cases event with
    | accepted | skipped => exact ih h.2
    | _ => exact ih h

end Signatory.Service
