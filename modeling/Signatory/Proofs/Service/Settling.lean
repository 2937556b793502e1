import Signatory.Proofs.Service.Acceptance
import Signatory.Proofs.Service.Endings

/-!
# The last request of a worker

A worker that has been told to leave takes nothing out of its mailbox any more. It answers the
request in its hand, if there is one, and leaves; only a connector that crashes keeps it from that.
The answer reaches the caller unless the caller gives up first.
-/

namespace Signatory.Service.State

variable {o s t : State} {τ : Task} {w v : WorkerId} {y z worker : Worker} {c d : CallerId}
  {x old next : Caller} {e : Envelope}

/-- What a worker can come to do once it has been told to leave, and what it answers thereby. -/
inductive Winds (s t : State) (w : WorkerId) : Activity → Activity → Prop
  | same (activity : Activity) (silent : t.history w = s.history w) :
    Winds s t w activity activity
  | leave (reason : ExitReason) (silent : t.history w = s.history w) :
    Winds s t w .idle (.left reason)
  | die {e : Envelope} {k : Credentials} {alarm : Alarm} (silent : t.history w = s.history w) :
    Winds s t w (.connecting e k .crash alarm) .died
  | again {e : Envelope} {attempt : Nat} {alarm next : Alarm}
    (more : attempt < s.policy.sync.attempts.toNat) (silent : t.history w = s.history w) :
    Winds s t w (.syncing e attempt alarm) (.syncing e (attempt + 1) next)
  | finish {activity : Activity} {e : Envelope} {r : Result} (hand : activity.hand? = some e)
    (told : t.history w = s.history w ++ [(e.caller, r)])
    (heard : ∀ x, s.callers.get? e.caller = some x → x.phase = .awaiting w →
      t.callers.get? e.caller = some { x with phase := .replied w (.answered r) }) :
    Winds s t w activity .idle

/-- What can become of a caller. -/
inductive Fares (s t : State) (c : CallerId) (x : Caller) : Caller → Prop
  | stay : Fares s t c x x
  | begin (fresh : x.phase = .fresh) : Fares s t c x { x with phase := .seeking }
  | refuse {w : WorkerId} (offers : Offers s c x w) :
    Fares s t c x { x with phase := .seeking, tries := x.tries - 1 }
  | back {w : WorkerId}
    (refused : x.phase = .suspended w ∨ x.phase = .replied w .handedBack) :
    Fares s t c x { x with phase := .seeking, tries := x.tries - 1 }
  | push {w : WorkerId} (offers : Offers s c x w) : Fares s t c x { x with phase := .awaiting w }
  | suspend {w : WorkerId} (offers : Offers s c x w) :
    Fares s t c x { x with phase := .suspended w }
  | enqueue {w : WorkerId} (suspended : x.phase = .suspended w) :
    Fares s t c x { x with phase := .awaiting w }
  | reply {w : WorkerId} {r : Reply} (awaiting : x.phase = .awaiting w) (replies : Replies t w r)
    (told : ∀ q, r = .answered q → t.history w = s.history w ++ [(c, q)]) :
    Fares s t c x { x with phase := .replied w r }
  | limit {w : WorkerId} {alarm : Alarm}
    (waiting : x.phase = .suspended w ∨ x.phase = .awaiting w) (unset : x.limit = none) :
    Fares s t c x { x with limit := some alarm }
  | drop : Fares s t c x { x with dropped := true }
  | stop {ending : Ending} (ends : Ends s c x ending) :
    Fares s t c x { x with phase := .ended ending }

section Winding

/-- Another lookup is only made if there are attempts left. -/
theorem attempt_lt_of_again {settings : SyncSettings} {i j : Identity} {attempt : Nat}
    {answer : Except Ledger.Fault UInt64}
    (undecided : handleAnswer settings i attempt answer = (none, j)) :
    attempt < settings.attempts.toNat := by
  cases answer with
  | ok remote =>
    rw [handleAnswer_ok] at undecided
    exact absurd (congrArg Prod.fst undecided) (by simp)
  | error fault =>
    rw [handleAnswer_error] at undecided
    by_cases more : attempt < settings.attempts.toNat
    · exact more
    · rw [if_neg more] at undecided
      exact absurd (congrArg Prod.fst undecided) (by simp)

/-- A worker that leaves answers nothing. -/
theorem history_of_left {reason : ExitReason} {time : Nat} {es : List Envelope}
    (journal : t.journal = returns time v es s.callers ++
      ⟨time, .closed v⟩ :: ⟨time, .hooked v reason⟩ :: s.journal) :
    t.history w = s.history w := by
  rw [history, events, journal, List.map_append, List.filterMap_append, answer?_returns]
  rfl

/-- What a worker comes to do when one worker, perhaps another, has come to do something else. -/
theorem winds_set (found : s.workers.get? w = some y) (known : s.workers.get? v = some worker)
    (silent : v ≠ w → t.history w = s.history w)
    (winds : v = w → Winds s t v worker.activity z.activity) :
    ∃ z', (s.workers.set v z).get? w = some z' ∧ Winds s t w y.activity z'.activity := by
  by_cases same : v = w
  · subst same
    obtain rfl := Option.some.inj (found.symm.trans known)
    exact ⟨z, Table.get?_set_self known, winds rfl⟩
  · exact ⟨y, (Table.get?_set_ne same).trans found, .same _ (silent same)⟩

/-- What a worker comes to do by a change once it has been told to leave. -/
theorem Change.winds (change : Change s τ t) (found : s.workers.get? w = some y)
    (told : y.cancelled = true) :
    ∃ z, t.workers.get? w = some z ∧ Winds s t w y.activity z.activity := by
  -- It takes nothing out of its mailbox any more.
  have never {v : WorkerId} {worker : Worker} {e : Envelope} {rest : Mailbox} {a b : Activity}
      (takes : Takes s v worker e rest) (same : v = w) : Winds s t v a b := by
    subst same
    obtain rfl := Option.some.inj (found.symm.trans takes.found)
    exact absurd (told.symm.trans takes.kept) (by simp)
  cases change with
  | @leave v worker reason known idle =>
    refine winds_set found known (fun _ ↦ history_of_left rfl) fun _ ↦ ?_
    rw [idle]
    exact .leave reason (history_of_left rfl)
  | die known cause =>
    refine winds_set found known (fun _ ↦ rfl) fun same ↦ ?_
    cases cause with
    | crashed connecting =>
      rw [connecting]
      exact .die rfl
    | outOfReach takes => exact never takes same
  | skip takes => exact winds_set found takes.found (fun _ ↦ rfl) (never takes)
  | misroute takes =>
    refine winds_set found takes.found (fun other ↦ ?_) (never takes)
    rw [history, events, List.map_cons, history_answered, if_neg other, List.append_nil]
    rfl
  | connect accepts =>
    exact winds_set found accepts.found (fun _ ↦ rfl) (never accepts.toTakes)
  | lookup accepts => exact winds_set found accepts.found (fun _ ↦ rfl) (never accepts.toTakes)
  | serve accepts =>
    refine winds_set found accepts.found (fun other ↦ ?_) (never accepts.toTakes)
    rw [history, events, List.map_cons, history_answered, if_neg other, List.append_nil]
    rfl
  | @finish v worker e done ledgers known finishes =>
    refine winds_set found known (fun other ↦ ?_) fun same ↦
      .finish (r := done.1) finishes.hand ?_ ?_
    · rw [history, events, List.map_cons, history_answered, if_neg other, List.append_nil]
      rfl
    · rw [history, events, List.map_cons, history_answered, if_pos rfl]
      rfl
    · intro x known awaiting
      dsimp only
      rw [Table.get?_update_self known, Caller.reply, if_pos (Caller.awaits_iff.mpr awaiting)]
  | again known syncing due identity undecided =>
    refine winds_set found known (fun _ ↦ rfl) fun _ ↦ ?_
    rw [syncing]
    exact .again (attempt_lt_of_again undecided) rfl
  | spawn =>
    exact ⟨y, Table.get?_push_of_found found, .same _ rfl⟩
  | push offers known => exact winds_set found known (fun _ ↦ rfl) fun _ ↦ .same _ rfl
  | suspend offers known => exact winds_set found known (fun _ ↦ rfl) fun _ ↦ .same _ rfl
  | occupy _ _ known => exact winds_set found known (fun _ ↦ rfl) fun _ ↦ .same _ rfl
  | @withdraw c x v =>
    by_cases same : v = w
    · exact ⟨{ y with mailbox := (y.mailbox.withdraw c).grant.2 },
        by rw [Table.get?_update, if_pos same, found, Option.map_some], .same _ rfl⟩
    · exact ⟨y, by rw [Table.get?_update, if_neg same, found], .same _ rfl⟩
  | _ => exact ⟨y, found, .same _ rfl⟩

/-- A worker that has been told to leave accepts nothing. -/
theorem Change.acceptances_of_told (change : Change s τ t)
    (told : ∀ y, s.workers.get? w = some y → y.cancelled = true) :
    t.acceptances w = s.acceptances w := by
  have other {v : WorkerId} {worker : Worker} {e : Envelope} {rest : Mailbox}
      (takes : Takes s v worker e rest) : v ≠ w := by
    rintro rfl
    exact absurd ((told _ takes.found).symm.trans takes.kept) (by simp)
  cases change with
  | leave =>
    rw [acceptances, events, List.map_append, List.filterMap_append, acceptance?_returns]
    rfl
  | connect accepts =>
    exact acceptances_accepted.trans (by rw [if_neg (other accepts.toTakes), List.append_nil]; rfl)
  | lookup accepts =>
    exact acceptances_accepted.trans (by rw [if_neg (other accepts.toTakes), List.append_nil]; rfl)
  | serve accepts =>
    exact acceptances_accepted.trans (by rw [if_neg (other accepts.toTakes), List.append_nil]; rfl)
  | _ => rfl

/-- What the callers do when one of them has gone on. -/
theorem fares_set (found : s.callers.get? d = some old) (fares : Fares s t d old next)
    (here : (s.callers.set d next).get? c = some x) :
    ∃ old, s.callers.get? c = some old ∧ Fares s t c old x := by
  rcases Table.of_set found here with ⟨rfl, rfl⟩ | ⟨-, here⟩
  · exact ⟨old, found, fares⟩
  · exact ⟨x, here, .stay⟩

/-- What the callers do when some of them have got a reply that is no answer. -/
theorem fares_replyAll {r : Reply} {es : List Envelope} (replies : Replies t w r)
    (silent : ∀ q, r ≠ .answered q) (here : (replyAll w r es s.callers).get? c = some x) :
    ∃ old, s.callers.get? c = some old ∧ Fares s t c old x := by
  rw [get?_replyAll] at here
  split at here
  next =>
    obtain ⟨old, found, rfl⟩ := Option.map_eq_some_iff.mp here
    refine ⟨old, found, ?_⟩
    unfold Caller.reply
    split
    next waits =>
      exact .reply (Caller.awaits_iff.mp waits) replies fun q same ↦ absurd same (silent q)
    next => exact .stay
  next => exact ⟨x, here, .stay⟩

/-- What the callers do when one of them has got an answer. -/
theorem fares_answer {r : Result}
    (told : t.history w = s.history w ++ [(d, r)])
    (here : (s.callers.update d (Caller.reply w (.answered r))).get? c = some x) :
    ∃ old, s.callers.get? c = some old ∧ Fares s t c old x := by
  obtain ⟨old, found, ⟨rfl, rfl⟩ | ⟨-, rfl⟩⟩ := Table.of_update here
  · refine ⟨old, found, ?_⟩
    unfold Caller.reply
    split
    next waits =>
      refine .reply (Caller.awaits_iff.mp waits) (.answered _) fun q same ↦ ?_
      obtain rfl := Reply.answered.inj same
      exact told
    next => exact .stay
  · exact ⟨x, found, .stay⟩

/-- What becomes of a caller by a change. -/
theorem Change.fares (change : Change s τ t) (here : t.callers.get? c = some x) :
    ∃ old, s.callers.get? c = some old ∧ Fares s t c old x := by
  cases change with
  | leave found =>
    exact fares_replyAll (.handedBack (Table.get?_set_self found) rfl) (by simp) here
  | die found => exact fares_replyAll (.lost (Table.get?_set_self found) rfl) (by simp) here
  | misroute takes =>
    refine fares_answer ?_ here
    rw [history, events, List.map_cons, history_answered, if_pos rfl]
    rfl
  | serve accepts =>
    refine fares_answer ?_ here
    rw [history, events, List.map_cons, history_answered, if_pos rfl]
    rfl
  | finish found finishes =>
    refine fares_answer ?_ here
    rw [history, events, List.map_cons, history_answered, if_pos rfl]
    rfl
  | begin found fresh => exact fares_set found (.begin fresh) here
  | beginDirect found fresh => exact fares_set found (.begin fresh) here
  | push offers => exact fares_set offers.found (.push offers) here
  | suspend offers => exact fares_set offers.found (.suspend offers) here
  | refuse offers => exact fares_set offers.found (.refuse offers) here
  | refuseDirect offers shut direct =>
    exact fares_set offers.found (.stop (.closed offers direct)) here
  | occupy known suspended => exact fares_set known (.enqueue suspended) here
  | turnAway found suspended => exact fares_set found (.back (.inl suspended)) here
  | retry found replied => exact fares_set found (.back (.inr replied)) here
  | limit found waiting direct limited early due =>
    refine fares_set found ?_ here
    rcases due with set | ⟨unset, -⟩
    · rw [← set]
      exact .stay
    · exact .limit waiting unset
  | conclude found cause => exact fares_set found (.stop (.concludes cause)) here
  | notFound found seeking direct cause =>
    exact fares_set found (.stop (.notFound seeking direct cause)) here
  | lose found replied => exact fares_set found (.stop (.lost replied)) here
  | giveUp found live apart cause => exact fares_set found (.stop (.givesUp live cause)) here
  | withdraw found suspended cause =>
    exact fares_set found (.stop (.givesUp (by rw [suspended]; rfl) cause)) here
  | _ => exact ⟨x, here, .stay⟩

/-- A call that is over stays as it is, but its caller may be dropped. -/
theorem Fares.past (fares : Fares s t c old x) (past : old.phase.isEnded = true) :
    x = old ∨ x = { old with dropped := true } := by
  have apart {phase : Phase} (other : phase.isEnded = false) (same : old.phase = phase) : False :=
    absurd (other.symm.trans (same ▸ past)) (by simp)
  cases fares with
  | stay => exact .inl rfl
  | drop => exact .inr rfl
  | begin fresh => exact (apart rfl fresh).elim
  | refuse offers => exact (apart rfl offers.seeking).elim
  | back refused =>
    rcases refused with phase | phase
    · exact (apart rfl phase).elim
    · exact (apart rfl phase).elim
  | push offers => exact (apart rfl offers.seeking).elim
  | suspend offers => exact (apart rfl offers.seeking).elim
  | enqueue suspended => exact (apart rfl suspended).elim
  | reply awaiting => exact (apart rfl awaiting).elim
  | limit waiting =>
    rcases waiting with phase | phase
    · exact (apart rfl phase).elim
    · exact (apart rfl phase).elim
  | stop ends => exact (apart ends.live rfl).elim

/-- A caller that has a reply which does not send it to another worker keeps it until its call
ends. -/
theorem Fares.of_replied {r : Reply} (fares : Fares s t c old x)
    (replied : old.phase = .replied w r) (final : r ≠ .handedBack) :
    x.phase = .replied w r ∨
      ∃ ending, Ends s c old ending ∧ x = { old with phase := .ended ending } := by
  have other {p : Phase} (same : old.phase = p) : .replied w r = p := replied.symm.trans same
  cases fares with
  | stay => exact .inl replied
  | drop => exact .inl replied
  | stop ends => exact .inr ⟨_, ends, rfl⟩
  | begin fresh => exact absurd (other fresh) (by simp)
  | refuse offers => exact absurd (other offers.seeking) (by simp)
  | push offers => exact absurd (other offers.seeking) (by simp)
  | suspend offers => exact absurd (other offers.seeking) (by simp)
  | back refused =>
    rcases refused with same | same
    · exact absurd (other same) (by simp)
    · exact absurd (Phase.replied.inj (other same)).2 final
  | enqueue suspended => exact absurd (other suspended) (by simp)
  | reply awaiting => exact absurd (other awaiting) (by simp)
  | limit waiting => rcases waiting with same | same <;> exact absurd (other same) (by simp)

/-- Why a call ends whose caller does not look for a worker: its caller gives up or has an answer,
its request was lost, or it was made for one worker only and that worker does not take it. -/
theorem Ends.cause {ending : Ending} (ends : Ends s c x ending) (decided : x.phase ≠ .seeking) :
    GivesUp s x ending ∨
    (∃ w r, x.phase = .replied w (.answered r) ∧ ending = .result r) ∨
    (∃ w, x.phase = .replied w .lost ∧
      ending = .result (.error (.violation (.workerStopped x.key x.request.operation)))) ∨
    x.direct ≠ none ∧ ∃ w, x.phase = .suspended w ∨ x.phase = .replied w .handedBack ∨
      x.phase = .replied w .lost := by
  have addressed {v : WorkerId} (direct : x.direct = some v) : x.direct ≠ none := by
    simp [direct]
  cases ends with
  | givesUp live cause => exact .inl cause
  | concludes cause =>
    cases cause with
    | result replied => exact .inr (.inl ⟨_, _, replied, rfl⟩)
    | rejected replied direct =>
      exact .inr (.inr (.inr ⟨addressed direct, _, .inr (.inl replied)⟩))
    | lost replied direct => exact .inr (.inr (.inr ⟨addressed direct, _, .inr (.inr replied)⟩))
    | closed suspended direct => exact .inr (.inr (.inr ⟨addressed direct, _, .inl suspended⟩))
    | cancelled seeking => exact absurd seeking decided
    | crashed seeking => exact absurd seeking decided
  | lost replied => exact .inr (.inr (.inl ⟨_, replied, rfl⟩))
  | closed offers => exact absurd offers.seeking decided
  | notFound seeking => exact absurd seeking decided

/-- Whoever has an answer has been accepted. -/
theorem accepted_of_replied {r : Result} (settles : s.Settles w) (heard : s.Heard)
    (found : s.callers.get? c = some x) (replied : x.phase = .replied w (.answered r)) :
    c ∈ s.acceptances w := by
  obtain ⟨client, order, -⟩ := settles
  rw [order]
  have answered : (c, r) ∈ s.history w := mem_history.mpr (heard found replied)
  exact List.mem_append_left _ (List.mem_map_of_mem answered)

end Winding

/-- A caller has given up waiting. -/
inductive GaveUp (t : State) (c : CallerId) : Prop
  | withdrawn {x : Caller} (found : t.callers.get? c = some x) (phase : x.phase = .ended .withdrawn)
    (dropped : x.dropped = true)
  | timeout {x : Caller} {limit : Nat} (found : t.callers.get? c = some x)
    (phase : x.phase = .ended (.result (.error .timeout)))
    (limited : t.policy.requestTimeout = some limit)

/-- A caller has got the answer of a worker. -/
inductive Delivered (t : State) (w : WorkerId) (c : CallerId) (r : Result) : Prop
  | replied {x : Caller} (found : t.callers.get? c = some x)
    (phase : x.phase = .replied w (.answered r))
  | result {x : Caller} (found : t.callers.get? c = some x) (phase : x.phase = .ended (.result r))

/-- What has become of the request that a worker had in its hand when it was told to leave. -/
inductive Settled (s t : State) (w : WorkerId) (y : Worker) (e : Envelope) : Prop
  /-- It is still in hand, and its caller waits for it. -/
  | held {z : Worker} (found : t.workers.get? w = some z)
    (goes : z.activity = y.activity ∨ ∃ attempt alarm, z.activity = .syncing e attempt alarm)
    (silent : t.history w = s.history w)
    (waits : s.awaits e.caller w = true → t.awaits e.caller w = true ∨ t.GaveUp e.caller)
  /-- Its connector has crashed. -/
  | lost {z : Worker} {k : Credentials} {alarm : Alarm} (found : t.workers.get? w = some z)
    (died : z.activity = .died) (crash : y.activity = .connecting e k .crash alarm)
  /-- It is answered, and the answer has reached its caller. -/
  | answered {z : Worker} {r : Result} (found : t.workers.get? w = some z)
    (free : z.activity.hand? = none) (told : t.history w = s.history w ++ [(e.caller, r)])
    (delivered : s.awaits e.caller w = true → t.Delivered w e.caller r ∨ t.GaveUp e.caller)

section Settling

theorem awaits_iff :
    s.awaits c w = true ↔ ∃ x, s.callers.get? c = some x ∧ x.phase = .awaiting w := by
  rw [awaits_eq, Option.any_eq_true]
  exact exists_congr fun x ↦ and_congr_right fun _ ↦ Caller.awaits_iff

/-- One step of a service: what lasts is left as it was, and the callers go on. -/
structure Advances (s t : State) : Prop where
  later : s.Later t
  fare : ∀ {c x}, s.callers.get? c = some x → ∃ y, t.callers.get? c = some y ∧ Fares s t c x y

/-- Every change is such a step. -/
theorem Change.advances (change : Change s τ t) : Advances s t where
  later := change.later
  fare := by
    intro c x found
    obtain ⟨y, here, -⟩ := change.later.callers c x found
    obtain ⟨x', found', fares⟩ := change.fares here
    obtain rfl := Option.some.inj (found.symm.trans found')
    exact ⟨y, here, fares⟩

/-- Every use is such a step. -/
theorem Use.advances (use : Use s t) : Advances s t where
  later := use.later
  fare := by
    intro c x found
    obtain ⟨y, here, -⟩ := use.later.callers c x found
    refine ⟨y, here, ?_⟩
    rcases use.becomes here with ⟨rfl, -⟩ | ⟨x', found', becomes⟩
    · exact absurd (Table.lt_size found) (Nat.lt_irrefl _)
    · obtain rfl := Option.some.inj (found.symm.trans found')
      rcases becomes with rfl | rfl
      · exact .stay
      · exact .drop

/-- One step of a service as a worker takes part in it that has been told to leave. -/
structure Retires (s t : State) (w : WorkerId) : Prop extends Advances s t where
  accepted : t.acceptances w = s.acceptances w
  wind : ∀ {y}, s.workers.get? w = some y →
    ∃ z, t.workers.get? w = some z ∧ Winds s t w y.activity z.activity

/-- Every change is such a step for a worker that has been told to leave. -/
theorem Change.retires (change : Change s τ t)
    (told : ∀ y, s.workers.get? w = some y → y.cancelled = true) : Retires s t w where
  toAdvances := change.advances
  accepted := change.acceptances_of_told told
  wind := fun found ↦ change.winds found (told _ found)

/-- Every use is such a step for every worker. -/
theorem Use.retires (use : Use s t) : Retires s t w where
  toAdvances := use.advances
  accepted := use.acceptances w
  wind := by
    intro y found
    obtain ⟨z, there, -⟩ := use.later.workers w y found
    refine ⟨z, there, ?_⟩
    obtain ⟨y', found', becomes⟩ := use.of_worker there
    obtain rfl := Option.some.inj (found.symm.trans found')
    rcases becomes with rfl | rfl
    · exact .same _ (use.silent w).1
    · exact .same _ (use.silent w).1

/-- Whoever has given up has done so for good. -/
theorem GaveUp.keep (h : s.GaveUp c) (advances : Advances s t) : t.GaveUp c := by
  cases h with
  | withdrawn found phase dropped =>
    obtain ⟨x, here, fares⟩ := advances.fare found
    rcases fares.past (by rw [phase]; rfl) with rfl | rfl
    · exact .withdrawn here phase dropped
    · exact .withdrawn here phase rfl
  | timeout found phase limited =>
    obtain ⟨x, here, fares⟩ := advances.fare found
    have limited := (congrArg Policy.requestTimeout advances.later.policy).trans limited
    rcases fares.past (by rw [phase]; rfl) with rfl | rfl
    · exact .timeout here phase limited
    · exact .timeout here phase limited

/-- A caller who gives up has given up. -/
theorem GivesUp.gaveUp {ending : Ending} (cause : GivesUp s old ending)
    (policy : t.policy = s.policy)
    (here : t.callers.get? c = some { old with phase := .ended ending }) : t.GaveUp c := by
  cases cause with
  | dropped dropped => exact .withdrawn here rfl dropped
  | timeout waiting direct limited => exact .timeout here rfl (policy ▸ limited)

/-- An answer that has reached its caller stays there. -/
theorem Delivered.keep {r : Result} (h : s.Delivered w c r) (advances : Advances s t) :
    t.Delivered w c r ∨ t.GaveUp c := by
  cases h with
  | result found phase =>
    obtain ⟨x, here, fares⟩ := advances.fare found
    rcases fares.past (by rw [phase]; rfl) with rfl | rfl
    · exact .inl (.result here phase)
    · exact .inl (.result here phase)
  | replied found phase =>
    obtain ⟨x, here, fares⟩ := advances.fare found
    rcases fares.of_replied phase (by simp) with still | ⟨ending, ends, rfl⟩
    · exact .inl (.replied here still)
    · rcases ends.cause (by simp [phase]) with cause | ⟨v, q, replied, rfl⟩ | other
      · exact .inr (cause.gaveUp advances.later.policy here)
      · obtain ⟨-, same⟩ := Phase.replied.inj (phase.symm.trans replied)
        obtain rfl := Reply.answered.inj same
        exact .inl (.result here rfl)
      · exact absurd other (by simp [phase])

/-- A caller that waits for a worker goes on to wait, gets a reply or gives up. -/
theorem Advances.awaiting (advances : Advances s t) (awaits : s.awaits c w = true) :
    t.awaits c w = true ∨ t.GaveUp c ∨ ∃ r, Replies t w r ∧
      ∀ q, r = .answered q → t.history w = s.history w ++ [(c, q)] := by
  obtain ⟨old, found, phase⟩ := awaits_iff.mp awaits
  obtain ⟨x, here, fares⟩ := advances.fare found
  have other {p : Phase} (same : _ = p) : .awaiting w = p := phase.symm.trans same
  cases fares with
  | stay => exact .inl (awaits_iff.mpr ⟨_, here, phase⟩)
  | drop => exact .inl (awaits_iff.mpr ⟨_, here, phase⟩)
  | limit => exact .inl (awaits_iff.mpr ⟨_, here, phase⟩)
  | begin fresh => exact absurd (other fresh) (by simp)
  | refuse offers => exact absurd (other offers.seeking) (by simp)
  | push offers => exact absurd (other offers.seeking) (by simp)
  | suspend offers => exact absurd (other offers.seeking) (by simp)
  | back refused => rcases refused with same | same <;> exact absurd (other same) (by simp)
  | enqueue suspended => exact absurd (other suspended) (by simp)
  | reply awaiting replies told =>
    obtain rfl := Phase.awaiting.inj (other awaiting)
    exact .inr (.inr ⟨_, replies, told⟩)
  | stop ends =>
    rcases ends.cause (by simp [phase]) with cause | other
    · exact .inr (.inl (cause.gaveUp advances.later.policy here))
    · exact absurd other (by simp [phase])

/-- A caller goes on to wait for a worker that keeps the request in its hand, or gives up. -/
theorem Advances.waits (advances : Advances s t) (found : t.workers.get? w = some z)
    (hand : z.activity.hand? = some e) (silent : t.history w = s.history w)
    (awaits : s.awaits c w = true) : t.awaits c w = true ∨ t.GaveUp c := by
  rcases advances.awaiting awaits with still | gone | ⟨r, replies, told⟩
  · exact .inl still
  · exact .inr gone
  · cases replies with
    | answered q =>
      have grown := silent.symm.trans (told q rfl)
      exact absurd grown (by simp)
    | handedBack found' left =>
      obtain rfl := Option.some.inj (found.symm.trans found')
      exact absurd hand (by simp [left, Activity.hand?])
    | lost found' died =>
      obtain rfl := Option.some.inj (found.symm.trans found')
      exact absurd hand (by simp [died, Activity.hand?])

/-- A request in hand goes on to be settled. -/
theorem Settled.keep (h : Settled o s w y e) (hand : y.activity.hand? = some e)
    (retires : Retires s t w) : Settled o t w y e := by
  cases h with
  | lost found died crash =>
    obtain ⟨z', there, later⟩ := retires.later.workers _ _ found
    exact .lost there ((later.past (by rw [died]; rfl)).trans died) crash
  | @answered z r found free told delivered =>
    obtain ⟨z', there, winds⟩ := retires.wind found
    have passed (silent : t.history w = s.history w) (free : z'.activity.hand? = none) :
        Settled o t w y e :=
      .answered there free (silent.trans told) fun awaited ↦ (delivered awaited).elim
        (·.keep retires.toAdvances) fun gone ↦ .inr (gone.keep retires.toAdvances)
    generalize before : z.activity = a at winds
    generalize after : z'.activity = b at winds
    cases winds with
    | same _ silent => exact passed silent (after ▸ before ▸ free)
    | leave reason silent => exact passed silent (by rw [after]; rfl)
    | die => exact absurd free (by simp [before, Activity.hand?])
    | again => exact absurd free (by simp [before, Activity.hand?])
    | finish held => exact absurd (held.symm.trans (before ▸ free)) (by simp)
  | @held z found goes silent waits =>
    -- What it can come to do next depends on what it does; only a lookup can be made again.
    have inside : z.activity.hand? = some e := by
      rcases goes with same | ⟨attempt, alarm, syncing⟩
      · rw [same, hand]
      · rw [syncing]
        rfl
    obtain ⟨z', there, winds⟩ := retires.wind found
    have goes_on (still : t.history w = s.history w) (inside : z'.activity.hand? = some e)
        (goes : z'.activity = y.activity ∨
          ∃ attempt alarm, z'.activity = .syncing e attempt alarm) :
        Settled o t w y e :=
      .held there goes (still.trans silent) fun awaited ↦ (waits awaited).elim
        (retires.toAdvances.waits there inside still) fun gone ↦ .inr (gone.keep retires.toAdvances)
    generalize before : z.activity = a at winds
    generalize after : z'.activity = b at winds
    cases winds with
    | same _ still =>
      have same := after.trans before.symm
      exact goes_on still (same ▸ inside) (same ▸ goes)
    | leave => exact absurd inside (by simp [before, Activity.hand?])
    | @die e' k alarm =>
      rcases goes with same | ⟨attempt, alarm, syncing⟩
      · have crash := same.symm.trans before
        rw [crash] at hand
        obtain rfl := Option.some.inj hand
        exact .lost there after crash
      · exact absurd (syncing.symm.trans before) (by simp)
    | again more still =>
      rw [before] at inside
      obtain rfl := Option.some.inj inside
      exact goes_on still (by rw [after]; rfl) (.inr ⟨_, _, after⟩)
    | finish held told heard =>
      rw [before] at inside
      obtain rfl := Option.some.inj (held.symm.trans inside)
      refine .answered there (by rw [after]; rfl) (told.trans (by rw [silent])) fun awaited ↦ ?_
      rcases waits awaited with still | gone
      · obtain ⟨x, known, phase⟩ := awaits_iff.mp still
        exact .inl (.replied (heard x known phase) rfl)
      · exact .inr (gone.keep retires.toAdvances)

end Settling

theorem GaveUp.bare (h : t.GaveUp c) : t.bare.GaveUp c := by
  cases h with
  | withdrawn found phase dropped => exact .withdrawn found phase dropped
  | timeout found phase limited => exact .timeout found phase limited

theorem GaveUp.of_bare (h : t.bare.GaveUp c) : t.GaveUp c := by
  cases h with
  | withdrawn found phase dropped => exact .withdrawn found phase dropped
  | timeout found phase limited => exact .timeout found phase limited

theorem Delivered.of_bare {r : Result} (h : t.bare.Delivered w c r) : t.Delivered w c r := by
  cases h with
  | replied found phase => exact .replied found phase
  | result found phase => exact .result found phase

theorem Settled.of_bare (h : Settled s.bare t.bare w y e) : Settled s t w y e := by
  cases h with
  | held found goes silent waits =>
    exact .held found goes silent fun awaits ↦ (waits awaits).imp id (·.of_bare)
  | lost found died crash => exact .lost found died crash
  | answered found free told delivered =>
    exact .answered found free told fun awaits ↦ (delivered awaits).imp (·.of_bare) (·.of_bare)

end Signatory.Service.State
