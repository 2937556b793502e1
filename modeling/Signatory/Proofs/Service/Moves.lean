import Signatory.Proofs.Service.Ownership

/-!
# What a change does to one caller and to one worker

A change leaves most callers and workers as they are. What it can do to a caller is listed here, and
where the envelopes of a worker come from.
-/

namespace Signatory.Service.State

variable {s t : State} {τ : Task} {w v : WorkerId} {worker y z : Worker} {c d : CallerId}
  {x next : Caller}
  {e : Envelope}

/-- Why a worker sends a reply: it has an answer, it has left, or it has died. -/
inductive Replies (t : State) (w : WorkerId) : Reply → Prop
  | answered (r : Result) : Replies t w (.answered r)
  | handedBack {y : Worker} {reason : ExitReason} (found : t.workers.get? w = some y)
    (left : y.activity = .left reason) : Replies t w .handedBack
  | lost {y : Worker} (found : t.workers.get? w = some y) (died : y.activity = .died) :
    Replies t w .lost

/-- Why a caller looks for another worker: it is refused or turned away by one that has closed its
mailbox, or its request comes back. -/
inductive Retries (s : State) (x : Caller) : Prop
  | refused (seeking : x.phase = .seeking)
  | turnedAway {w : WorkerId} (suspended : x.phase = .suspended w) (shut : s.isClosed w = true)
  | handedBack {w : WorkerId} (replied : x.phase = .replied w .handedBack)

/-- What can become of a caller. -/
inductive Moves (s t : State) (c : CallerId) (x : Caller) : Caller → Prop
  | begin (fresh : x.phase = .fresh) : Moves s t c x { x with phase := .seeking }
  | retry (cause : Retries s x) : Moves s t c x { x with phase := .seeking, tries := x.tries - 1 }
  | line {w : WorkerId} {worker : Worker} (offers : Offers s c x w)
    (found : s.workers.get? w = some worker) : Moves s t c x { x with phase := .suspended w }
  | enqueue {w : WorkerId} {worker : Worker}
    (target : Offers s c x w ∨ x.phase = .suspended w) (found : s.workers.get? w = some worker) :
    Moves s t c x { x with phase := .awaiting w }
  | reply {w : WorkerId} {r : Reply} (waits : x.phase = .awaiting w) (replies : Replies t w r) :
    Moves s t c x { x with phase := .replied w r }
  | finish (ending : Ending) : Moves s t c x { x with phase := .ended ending }
  | limit {w : WorkerId} {limit : Nat} {alarm : Alarm}
    (waiting : x.phase = .suspended w ∨ x.phase = .awaiting w)
    (limited : s.policy.requestTimeout = some limit) (early : s.now < alarm.time)
    (due : x.limit = some alarm ∨ x.limit = none ∧ alarm.time = s.after limit) :
    Moves s t c x { x with limit := some alarm }

/-- A caller is as it was, or one that was there has become what it is. -/
def Caller.From (s t : State) (c : CallerId) (x : Caller) : Prop :=
  s.callers.get? c = some x ∨ ∃ old, s.callers.get? c = some old ∧ Moves s t c old x

/-- The callers once one of them has moved. -/
theorem from_set (found : s.callers.get? d = some x) (moves : Moves s t d x next)
    {now : Caller} (here : (s.callers.set d next).get? c = some now) : Caller.From s t c now := by
  rcases Table.of_set found here with ⟨rfl, rfl⟩ | ⟨-, here⟩
  · exact .inr ⟨x, found, moves⟩
  · exact .inl here

/-- The callers once some of them have a reply. -/
theorem from_replyAll {r : Reply} {es : List Envelope} (replies : Replies t w r) {now : Caller}
    (here : (replyAll w r es s.callers).get? c = some now) : Caller.From s t c now := by
  rw [get?_replyAll] at here
  split at here
  next =>
    obtain ⟨old, found, rfl⟩ := Option.map_eq_some_iff.mp here
    unfold Caller.reply
    split
    next waits => exact .inr ⟨old, found, .reply (Caller.awaits_iff.mp waits) replies⟩
    next => exact .inl found
  next => exact .inl here

/-- The callers once one of them may have an answer. -/
theorem from_answer {r : Result} {now : Caller}
    (here : (s.callers.update d (Caller.reply w (.answered r))).get? c = some now) :
    Caller.From s t c now := by
  obtain ⟨old, found, ⟨-, rfl⟩ | ⟨-, rfl⟩⟩ := Table.of_update here
  · unfold Caller.reply
    split
    next waits => exact .inr ⟨old, found, .reply (Caller.awaits_iff.mp waits) (.answered r)⟩
    next => exact .inl found
  · exact .inl found

/-- What a change does to one caller. -/
theorem Change.caller (change : Change s τ t) (here : t.callers.get? c = some x) :
    Caller.From s t c x := by
  cases change with
  | leave found =>
    exact from_replyAll (.handedBack (Table.get?_set_self found) rfl) here
  | die found => exact from_replyAll (.lost (Table.get?_set_self found) rfl) here
  | misroute => exact from_answer here
  | serve => exact from_answer here
  | finish => exact from_answer here
  | begin found fresh => exact from_set found (.begin fresh) here
  | beginDirect found fresh => exact from_set found (.begin fresh) here
  | push offers found => exact from_set offers.found (.enqueue (.inl offers) found) here
  | suspend offers found => exact from_set offers.found (.line offers found) here
  | refuse offers => exact from_set offers.found (.retry (.refused offers.seeking)) here
  | refuseDirect offers => exact from_set offers.found (.finish _) here
  | occupy known suspended found => exact from_set known (.enqueue (.inr suspended) found) here
  | turnAway found suspended shut => exact from_set found (.retry (.turnedAway suspended shut)) here
  | retry found replied => exact from_set found (.retry (.handedBack replied)) here
  | limit found waiting direct limited early due =>
    exact from_set found (.limit waiting limited early due) here
  | conclude found => exact from_set found (.finish _) here
  | notFound found => exact from_set found (.finish _) here
  | lose found => exact from_set found (.finish _) here
  | giveUp found => exact from_set found (.finish _) here
  | withdraw found => exact from_set found (.finish _) here
  | rest => exact .inl here
  | skip => exact .inl here
  | connect => exact .inl here
  | lookup => exact .inl here
  | again => exact .inl here
  | spawn => exact .inl here

/-- A caller other than the one that moves is as it was, or has a reply. -/
def Stays (x y : Caller) : Prop :=
  y = x ∨ ∃ w r, x.phase = .awaiting w ∧ y = { x with phase := .replied w r }

/-- A reply is all that a caller can get without moving. -/
theorem stays_reply (w : WorkerId) (r : Reply) (x : Caller) : Stays x (x.reply w r) := by
  unfold Caller.reply
  split
  next waits => exact .inr ⟨w, r, Caller.awaits_iff.mp waits, rfl⟩
  next => exact .inl rfl

/-- The others stay when one caller moves. -/
theorem stays_set (other : d ≠ c) {now : Caller} (here : (s.callers.set d next).get? c = some now) :
    ∃ old, s.callers.get? c = some old ∧ Stays old now := by
  rw [Table.get?_set_ne other] at here
  exact ⟨now, here, .inl rfl⟩

/-- The callers stay when some of them get a reply. -/
theorem stays_replyAll {r : Reply} {es : List Envelope} {now : Caller}
    (here : (replyAll w r es s.callers).get? c = some now) :
    ∃ old, s.callers.get? c = some old ∧ Stays old now := by
  rw [get?_replyAll] at here
  split at here
  next =>
    obtain ⟨old, found, rfl⟩ := Option.map_eq_some_iff.mp here
    exact ⟨old, found, stays_reply w r old⟩
  next => exact ⟨now, here, .inl rfl⟩

/-- The callers stay when one of them may have an answer. -/
theorem stays_answer {r : Reply} {now : Caller}
    (here : (s.callers.update d (Caller.reply w r)).get? c = some now) :
    ∃ old, s.callers.get? c = some old ∧ Stays old now := by
  obtain ⟨old, found, ⟨-, rfl⟩ | ⟨-, rfl⟩⟩ := Table.of_update here
  · exact ⟨old, found, stays_reply w r old⟩
  · exact ⟨now, found, .inl rfl⟩

/-- Only the caller who makes a change moves. -/
theorem Change.stays (change : Change s τ t) (other : τ ≠ .caller c)
    (here : t.callers.get? c = some x) : ∃ old, s.callers.get? c = some old ∧ Stays old x := by
  have apart {d : CallerId} (own : Task.caller d ≠ .caller c) : d ≠ c :=
    fun same ↦ own (congrArg Task.caller same)
  cases change with
  | leave => exact stays_replyAll here
  | die => exact stays_replyAll here
  | misroute => exact stays_answer here
  | serve => exact stays_answer here
  | finish => exact stays_answer here
  | begin => exact stays_set (apart other) here
  | beginDirect => exact stays_set (apart other) here
  | push => exact stays_set (apart other) here
  | suspend => exact stays_set (apart other) here
  | refuse => exact stays_set (apart other) here
  | refuseDirect => exact stays_set (apart other) here
  | occupy => exact stays_set (apart other) here
  | turnAway => exact stays_set (apart other) here
  | retry => exact stays_set (apart other) here
  | limit => exact stays_set (apart other) here
  | conclude => exact stays_set (apart other) here
  | notFound => exact stays_set (apart other) here
  | lose => exact stays_set (apart other) here
  | giveUp => exact stays_set (apart other) here
  | withdraw => exact stays_set (apart other) here
  | _ => exact ⟨x, here, .inl rfl⟩

/-- What one caller does leaves the others as they are. -/
theorem Change.callers_of_caller {d : CallerId} (change : Change s (.caller d) t) (other : d ≠ c) :
    t.callers.get? c = s.callers.get? c := by
  cases change <;> first | rfl | exact Table.get?_set_ne other

/-- Whatever one caller does leaves the others as they are. -/
theorem Changes.callers_of_caller {d : CallerId} (changes : Changes (.caller d) s t)
    (other : d ≠ c) : t.callers.get? c = s.callers.get? c := by
  induction changes with
  | refl => rfl
  | tail _ change ih => exact (change.callers_of_caller other).trans ih

/-- What a use does to one caller: nothing but that it may be dropped, or it is a new one. -/
theorem Use.becomes (use : Use s t) (here : t.callers.get? c = some x) :
    (c = s.callers.size ∧ ∃ key request, x = { key, request }) ∨
      ∃ old, s.callers.get? c = some old ∧ (x = old ∨ x = { old with dropped := true }) := by
  cases use with
  | dispatch key request =>
    rcases Table.of_push here with ⟨same, new, -⟩ | here
    · exact .inl ⟨same, key, request, new⟩
    · exact .inr ⟨x, here, .inl rfl⟩
  | drop found =>
    rcases Table.of_set found here with ⟨rfl, dropped⟩ | ⟨-, here⟩
    · exact .inr ⟨_, found, .inr dropped⟩
    · exact .inr ⟨x, here, .inl rfl⟩
  | _ => exact .inr ⟨x, here, .inl rfl⟩

/-- A caller is new, or goes on with what it does. -/
theorem Use.caller (use : Use s t) (here : t.callers.get? c = some x) :
    x.phase = .fresh ∧ x.direct = none ∨
      ∃ old, s.callers.get? c = some old ∧ x.phase = old.phase ∧ x.key = old.key ∧
        x.direct = old.direct := by
  rcases use.becomes here with ⟨-, key, request, rfl⟩ | ⟨old, found, rfl | rfl⟩
  · exact .inl ⟨rfl, rfl⟩
  · exact .inr ⟨_, found, rfl, rfl, rfl⟩
  · exact .inr ⟨old, found, rfl, rfl, rfl⟩

/-- What a use does to one worker: nothing but that it may be told to leave. -/
theorem Use.of_worker (use : Use s t) (here : t.workers.get? w = some z) :
    ∃ old, s.workers.get? w = some old ∧ (z = old ∨ z = { old with cancelled := true }) := by
  cases use with
  | remove =>
    obtain ⟨y, found, ⟨-, rfl⟩ | ⟨-, rfl⟩⟩ := Table.of_update here
    · exact ⟨y, found, .inr rfl⟩
    · exact ⟨z, found, .inl rfl⟩
  | shutdown serving cancelled =>
    change _ = some z at here
    rw [cancelled w] at here
    obtain ⟨y, found, rfl⟩ := Option.map_eq_some_iff.mp here
    exact ⟨y, found, .inr rfl⟩
  | _ => exact ⟨z, here, .inl rfl⟩

/-- An envelope was there, or a caller has just put it there. -/
def Envelope.From (s : State) (w : WorkerId) (e : Envelope) : Prop :=
  (∃ y, s.workers.get? w = some y ∧ e ∈ y.envelopes) ∨
    ∃ x y, s.callers.get? e.caller = some x ∧ s.workers.get? w = some y ∧
      (Offers s e.caller x w ∨ x.phase = .suspended w) ∧ e = ⟨x.key, x.request, e.caller⟩

/-- The envelopes once a worker has some that it had. -/
theorem envelope_of_set (found : s.workers.get? v = some y)
    (kept : ∀ e ∈ z.envelopes, e ∈ y.envelopes) (here : (s.workers.set v z).get? w = some worker)
    (inside : e ∈ worker.envelopes) : Envelope.From s w e := by
  rcases Table.of_set found here with ⟨rfl, rfl⟩ | ⟨-, here⟩
  · exact .inl ⟨y, found, kept e inside⟩
  · exact .inl ⟨worker, here, inside⟩

/-- The envelopes once a caller has put one into a mailbox. -/
theorem envelope_of_enqueue (found : s.workers.get? v = some y)
    (known : s.callers.get? c = some x) (target : Offers s c x v ∨ x.phase = .suspended v)
    {mailbox : Mailbox} (queue : mailbox.queue = y.mailbox.queue ++ [⟨x.key, x.request, c⟩])
    (here : (s.workers.set v { y with mailbox }).get? w = some worker)
    (inside : e ∈ worker.envelopes) : Envelope.From s w e := by
  rcases Table.of_set found here with ⟨rfl, rfl⟩ | ⟨-, here⟩
  · unfold Worker.envelopes at inside
    rw [queue, ← List.append_assoc] at inside
    rcases List.mem_append.mp inside with old | new
    · exact .inl ⟨y, found, old⟩
    · obtain rfl := List.mem_singleton.mp new
      exact .inr ⟨x, y, known, found, target, rfl⟩
  · exact .inl ⟨worker, here, inside⟩

/-- What a worker has once it has taken an envelope, it had before. -/
theorem Takes.had {rest : Mailbox} (takes : Takes s w worker e rest) {z : Worker}
    (hand : ∀ f, z.activity.hand? = some f → f = e) (mailbox : z.mailbox = rest.grant.2) :
    ∀ f ∈ z.envelopes, f ∈ worker.envelopes := by
  intro f inside
  unfold Worker.envelopes at inside
  rw [mailbox, Mailbox.grant_queue] at inside
  rw [takes.envelopes]
  rcases List.mem_append.mp inside with held | queued
  · rw [hand f (Option.mem_toList.mp held)]
    exact List.mem_cons_self
  · exact List.mem_cons_of_mem e queued

/-- Where the envelopes of a worker come from. -/
theorem Change.envelope (change : Change s τ t) (here : t.workers.get? w = some worker)
    (inside : e ∈ worker.envelopes) : Envelope.From s w e := by
  cases change with
  | leave found =>
    refine envelope_of_set found ?_ here inside
    exact fun f none ↦ absurd none List.not_mem_nil
  | die found =>
    refine envelope_of_set found ?_ here inside
    exact fun f none ↦ absurd none List.not_mem_nil
  | skip takes =>
    refine envelope_of_set takes.found (takes.had ?_ rfl) here inside
    intro f held
    rw [takes.idle] at held
    exact absurd held (by simp [Activity.hand?])
  | misroute takes =>
    refine envelope_of_set takes.found (takes.had ?_ rfl) here inside
    intro f held
    rw [takes.idle] at held
    exact absurd held (by simp [Activity.hand?])
  | connect accepts =>
    refine envelope_of_set accepts.found (accepts.toTakes.had ?_ rfl) here inside
    exact fun f held ↦ (Option.some.inj held).symm
  | lookup accepts =>
    refine envelope_of_set accepts.found (accepts.toTakes.had ?_ rfl) here inside
    exact fun f held ↦ (Option.some.inj held).symm
  | serve accepts =>
    refine envelope_of_set accepts.found (accepts.toTakes.had ?_ rfl) here inside
    exact fun f held ↦ absurd held (by simp [Activity.hand?])
  | finish found =>
    refine envelope_of_set found ?_ here inside
    exact fun f queued ↦ List.mem_append_right _ queued
  | again found syncing =>
    refine envelope_of_set found ?_ here inside
    intro f queued
    unfold Worker.envelopes
    rw [syncing]
    exact queued
  | spawn =>
    rcases Table.of_push here with ⟨-, rfl, -⟩ | here
    · exact absurd inside List.not_mem_nil
    · exact .inl ⟨worker, here, inside⟩
  | push offers found =>
    exact envelope_of_enqueue found offers.found (.inl offers) rfl here inside
  | suspend offers found => exact envelope_of_set found (by exact fun _ old ↦ old) here inside
  | occupy known suspended found =>
    exact envelope_of_enqueue found known (.inr suspended) rfl here inside
  | withdraw =>
    obtain ⟨y, found, ⟨-, rfl⟩ | ⟨-, rfl⟩⟩ := Table.of_update here
    · unfold Worker.envelopes at inside
      rw [Mailbox.grant_queue] at inside
      exact .inl ⟨y, found, inside⟩
    · exact .inl ⟨worker, found, inside⟩
  | _ => exact .inl ⟨worker, here, inside⟩

/-- What has been recorded, the latest first. -/
def events (s : State) : List Event :=
  s.journal.map (·.event)

/-- What is recorded stays recorded. -/
theorem Later.events_subset (later : s.Later t) {event : Event} (old : event ∈ s.events) :
    event ∈ t.events :=
  (later.journal.map _).subset old

/-- What is recorded when a worker leaves. -/
theorem mem_events_leave {time : Nat} {es : List Envelope} {reason : ExitReason} {event : Event} :
    event ∈ (returns time w es s.callers ++
      ⟨time, .closed w⟩ :: ⟨time, .hooked w reason⟩ :: s.journal).map (·.event) ↔
    (∃ e ∈ es, (s.callers.get? e.caller).any (Caller.awaits w) = true ∧
      event = .handedBack e.caller w) ∨
      event = .closed w ∨ event = .hooked w reason ∨ event ∈ s.events := by
  rw [List.map_append, List.mem_append, List.map_cons, List.map_cons, List.mem_cons, List.mem_cons,
    events]
  apply or_congr_left
  constructor
  · intro back
    obtain ⟨entry, here, rfl⟩ := List.mem_map.mp back
    obtain ⟨e, inside, waits, rfl⟩ := mem_returns.mp here
    exact ⟨e, inside, waits, rfl⟩
  · rintro ⟨e, inside, waits, rfl⟩
    exact List.mem_map.mpr ⟨_, mem_returns.mpr ⟨e, inside, waits, rfl⟩, rfl⟩

/-- A use records nothing about requests. -/
theorem Use.events_eq (use : Use s t) :
    t.events = s.events ∨ (∃ w, t.events = .removed w :: s.events) ∨
      t.events = .shutDown :: s.events := by
  cases use with
  | remove => exact .inr (.inl ⟨_, rfl⟩)
  | shutdown => exact .inr (.inr rfl)
  | _ => exact .inl rfl

/-- A worker that leaves does so for one of the reasons. -/
theorem Change.hooked {reason : ExitReason} (change : Change s τ t)
    (new : .hooked w reason ∈ t.events) :
    .hooked w reason ∈ s.events ∨
      ∃ worker, s.workers.get? w = some worker ∧ Leaves s w worker reason := by
  cases change with
  | leave found idle cause =>
    rcases mem_events_leave.mp new with ⟨_, _, _, back⟩ | closed | own | old
    · exact absurd back (by simp)
    · exact absurd closed (by simp)
    · obtain ⟨rfl, rfl⟩ := Event.hooked.inj own
      exact .inr ⟨_, found, cause⟩
    · exact .inl old
  | _ => exact .inl (by simpa [events] using new)

end Signatory.Service.State
