import Signatory.Proofs.Service.Departure

/-!
# Callers who address a worker

A caller who addresses a worker asks no other. Its envelope goes into the mailbox once, so a request
that the worker has accepted is never in its mailbox again; and its call ends with what the worker
made of the request, unless the caller is dropped.
-/

namespace Signatory.Service

/-- Whether a caller who addresses a worker has no envelope left to put into its mailbox. -/
def Phase.hasSent : Phase → Bool
  | .fresh | .seeking | .suspended _ => false
  | .awaiting _ | .replied .. | .ended _ => true

namespace State

/-- How the call of a caller ends who addresses a worker. -/
inductive Yields (x : Caller) : Ending → Prop
  | dropped (dropped : x.dropped = true) : Yields x .withdrawn
  | answered {w : WorkerId} {r : Result} (replied : x.phase = .replied w (.answered r)) :
    Yields x (.result r)
  | rejected {w : WorkerId} (replied : x.phase = .replied w .handedBack) : Yields x .rejected
  | lost {w : WorkerId} (replied : x.phase = .replied w .lost) : Yields x .lost
  | closed (waits : x.phase = .seeking ∨ ∃ w, x.phase = .suspended w) : Yields x .closed

/-- What can become of a caller who addresses a worker. -/
inductive Goes (s : State) (x : Caller) : Caller → Prop
  | stay : Goes s x x
  | begin (fresh : x.phase = .fresh) : Goes s x { x with phase := .seeking }
  | send {w : WorkerId} {y : Worker} (waits : x.phase = .seeking ∨ x.phase = .suspended w)
    (found : s.workers.get? w = some y) (opened : y.mailbox.closed = false) :
    Goes s x { x with phase := .awaiting w }
  | line {w : WorkerId} (seeking : x.phase = .seeking) : Goes s x { x with phase := .suspended w }
  | reply {w : WorkerId} {r : Reply} (awaiting : x.phase = .awaiting w) :
    Goes s x { x with phase := .replied w r }
  | stop {ending : Ending} (live : x.phase.isEnded = false) (yields : Yields x ending) :
    Goes s x { x with phase := .ended ending }
  | drop : Goes s x { x with dropped := true }

variable {s t u : State} {τ : Task} {w : WorkerId} {y z : Worker} {c : CallerId} {x old : Caller}
  {e : Envelope} {key : String} {ending : Ending} {event : Event}

section Going

/-- A caller that gives up and addresses a worker is dropped. -/
theorem GivesUp.yields (cause : GivesUp s x ending) (direct : x.direct = some w) :
    Yields x ending := by
  cases cause with
  | dropped dropped => exact .dropped dropped
  | timeout _ none => exact absurd (direct.symm.trans none) (by simp)

/-- What becomes of a caller who addresses a worker, whatever is done next. -/
theorem Change.goes (change : Change s τ t) (here : t.callers.get? c = some x)
    (direct : ∀ x, s.callers.get? c = some x → x.direct = some 0) :
    ∃ old, s.callers.get? c = some old ∧ Goes s old x := by
  by_cases own : τ = .caller c
  case neg =>
    obtain ⟨old, found, rfl | ⟨w, r, awaiting, rfl⟩⟩ := change.stays own here
    · exact ⟨_, found, .stay⟩
    · exact ⟨_, found, .reply awaiting⟩
  subst own
  have never {p : Prop} {old : Caller} (found : s.callers.get? c = some old)
      (none : old.direct = none) : p :=
    absurd ((direct old found).symm.trans none) (by simp)
  cases change with
  | rest => exact ⟨x, here, .stay⟩
  | spawn found _ none => exact never found none
  | begin found _ none => exact never found none
  | beginDirect found fresh =>
    exact ⟨_, found, Table.eq_of_set found here ▸ .begin fresh⟩
  | push offers found opened =>
    exact ⟨_, offers.found, Table.eq_of_set offers.found here ▸
      .send (.inl offers.seeking) found opened⟩
  | suspend offers =>
    exact ⟨_, offers.found, Table.eq_of_set offers.found here ▸ .line offers.seeking⟩
  | refuse offers _ none => exact never offers.found none
  | refuseDirect offers =>
    exact ⟨_, offers.found, Table.eq_of_set offers.found here ▸
      .stop (by rw [offers.seeking]; rfl) (.closed (.inl offers.seeking))⟩
  | occupy known suspended found opened =>
    exact ⟨_, known, Table.eq_of_set known here ▸ .send (.inr suspended) found opened⟩
  | turnAway found _ _ none => exact never found none
  | retry found _ none => exact never found none
  | limit found _ none => exact never found none
  | conclude found cause =>
    refine ⟨_, found, Table.eq_of_set found here ▸ .stop cause.live ?_⟩
    cases cause with
    | result replied => exact .answered replied
    | rejected replied => exact .rejected replied
    | lost replied => exact .lost replied
    | cancelled _ none => exact never found none
    | crashed _ none => exact never found none
    | closed suspended => exact .closed (.inr ⟨_, suspended⟩)
  | notFound found _ none => exact never found none
  | lose found _ none => exact never found none
  | giveUp found live apart cause =>
    exact ⟨_, found, Table.eq_of_set found here ▸ .stop live (cause.yields (direct _ found))⟩
  | withdraw found suspended cause =>
    exact ⟨_, found, Table.eq_of_set found here ▸
      .stop (by rw [suspended]; rfl) (cause.yields (direct _ found))⟩

/-- What becomes of a caller when the worker that it addresses is used. -/
theorem Touch.goes (touch : Touch s t) (known : s.callers.get? c = some old)
    (here : t.callers.get? c = some x) : Goes s old x := by
  rcases touch.of_caller here with ⟨rfl, -⟩ | ⟨old', found, rfl | rfl⟩
  · exact absurd (Table.lt_size known) (Nat.lt_irrefl _)
  · obtain rfl := Option.some.inj (known.symm.trans found)
    exact .stay
  · obtain rfl := Option.some.inj (known.symm.trans found)
    exact .drop

/-- A caller asks what it has asked before. -/
theorem Goes.same (goes : Goes s old x) : x.key = old.key ∧ x.request = old.request := by
  cases goes <;> exact ⟨rfl, rfl⟩

/-- A caller sends one envelope. -/
theorem Goes.sent (goes : Goes s old x) (sent : old.phase.hasSent = true) :
    x.phase.hasSent = true := by
  have not_yet {p : Prop} {phase : Phase} (other : old.phase = phase)
      (unsent : phase.hasSent = false) : p :=
    absurd (unsent.symm.trans (other ▸ sent)) (by simp)
  cases goes with
  | stay => exact sent
  | begin fresh => exact not_yet fresh rfl
  | send => rfl
  | line seeking => exact not_yet seeking rfl
  | reply => rfl
  | stop => rfl
  | drop => exact sent

end Going

section Sending

/-- An envelope in a mailbox was there before, or its caller had sent none. -/
theorem Change.queue_from (change : Change s τ t) (there : t.workers.get? w = some z)
    (inside : e ∈ z.mailbox.queue) :
    (∃ y, s.workers.get? w = some y ∧ e ∈ y.mailbox.queue) ∨
      ∃ x, s.callers.get? e.caller = some x ∧ x.phase.hasSent = false := by
  have fewer {v : WorkerId} {y next : Worker} (found : s.workers.get? v = some y)
      (there : (s.workers.set v next).get? w = some z)
      (kept : ∀ e ∈ next.mailbox.queue, e ∈ y.mailbox.queue) :
      ∃ y, s.workers.get? w = some y ∧ e ∈ y.mailbox.queue := by
    rcases Table.of_set found there with ⟨rfl, rfl⟩ | ⟨-, there⟩
    · exact ⟨y, found, kept e inside⟩
    · exact ⟨z, there, inside⟩
  have taken {v : WorkerId} {y next : Worker} {e : Envelope} {rest : Mailbox}
      (takes : Takes s v y e rest) (mailbox : next.mailbox = rest.grant.2) :
      ∀ e ∈ next.mailbox.queue, e ∈ y.mailbox.queue := by
    rw [mailbox, Mailbox.grant_queue, Mailbox.queue_of_pop? takes.popped]
    exact fun _ ↦ List.mem_cons_of_mem _
  have more {v : WorkerId} {y : Worker} {d : CallerId} {x : Caller} {m : Mailbox}
      (found : s.workers.get? v = some y) (known : s.callers.get? d = some x)
      (unsent : x.phase.hasSent = false)
      (queue : m.queue = y.mailbox.queue ++ [⟨x.key, x.request, d⟩])
      (there : (s.workers.set v { y with mailbox := m }).get? w = some z) :
      (∃ y, s.workers.get? w = some y ∧ e ∈ y.mailbox.queue) ∨
        ∃ x, s.callers.get? e.caller = some x ∧ x.phase.hasSent = false := by
    rcases Table.of_set found there with ⟨rfl, rfl⟩ | ⟨-, there⟩
    · have inside : e ∈ m.queue := inside
      rw [queue] at inside
      rcases List.mem_append.mp inside with before | new
      · exact .inl ⟨y, found, before⟩
      · obtain rfl := List.mem_singleton.mp new
        exact .inr ⟨x, known, unsent⟩
    · exact .inl ⟨z, there, inside⟩
  cases change with
  | leave found =>
    exact .inl (fewer found there fun _ none ↦ absurd none List.not_mem_nil)
  | die found => exact .inl (fewer found there fun _ none ↦ absurd none List.not_mem_nil)
  | skip takes => exact .inl (fewer takes.found there (taken takes rfl))
  | misroute takes => exact .inl (fewer takes.found there (taken takes rfl))
  | connect accepts => exact .inl (fewer accepts.found there (taken accepts.toTakes rfl))
  | lookup accepts => exact .inl (fewer accepts.found there (taken accepts.toTakes rfl))
  | serve accepts => exact .inl (fewer accepts.found there (taken accepts.toTakes rfl))
  | finish found => exact .inl (fewer found there fun _ ↦ id)
  | again found => exact .inl (fewer found there fun _ ↦ id)
  | spawn =>
    rcases Table.of_push there with ⟨-, rfl, -⟩ | there
    · exact absurd inside List.not_mem_nil
    · exact .inl ⟨z, there, inside⟩
  | push offers found =>
    exact more found offers.found (by rw [offers.seeking]; rfl) rfl there
  | suspend offers found => exact .inl (fewer found there fun _ ↦ id)
  | occupy known suspended found => exact more found known (by rw [suspended]; rfl) rfl there
  | withdraw =>
    obtain ⟨y, found, ⟨-, rfl⟩ | ⟨-, rfl⟩⟩ := Table.of_update there
    · rw [Mailbox.grant_queue] at inside
      exact .inl ⟨y, found, inside⟩
    · exact .inl ⟨z, found, inside⟩
  | _ => exact .inl ⟨z, there, inside⟩

/-- A request that a worker has accepted has been sent and is in its mailbox no more. -/
def Served (s : State) (w : WorkerId) : Prop :=
  ∀ c, .accepted c w ∈ s.events → ∃ x, s.callers.get? c = some x ∧ x.phase.hasSent = true ∧
    ∀ y, s.workers.get? w = some y → ∀ e ∈ y.mailbox.queue, e.caller ≠ c

/-- Every change leaves it so. -/
theorem Change.served (h : s.Served w) (owned : Owned s.workers s.callers)
    (direct : ∀ c x, s.callers.get? c = some x → x.direct = some 0) (change : Change s τ t) :
    t.Served w := by
  intro c accepted
  -- What was accepted before stays out of the mailbox, because its caller sends nothing more.
  have before (old : .accepted c w ∈ s.events) :
      ∃ x, t.callers.get? c = some x ∧ x.phase.hasSent = true ∧
        ∀ y, t.workers.get? w = some y → ∀ e ∈ y.mailbox.queue, e.caller ≠ c := by
    obtain ⟨x, known, sent, absent⟩ := h c old
    obtain ⟨x', here, -⟩ := change.later.callers c x known
    obtain ⟨x'', known', goes⟩ := change.goes here (direct c)
    obtain rfl := Option.some.inj (known.symm.trans known')
    refine ⟨x', here, goes.sent sent, fun z there e inside same ↦ ?_⟩
    rcases change.queue_from there inside with ⟨y, found, queued⟩ | ⟨x'', known', unsent⟩
    · exact absent y found e queued same
    · rw [same] at known'
      obtain rfl := Option.some.inj (known.symm.trans known')
      exact absurd (sent.symm.trans unsent) (by simp)
  -- What is accepted now is taken out of the mailbox, where its caller has nothing else.
  have now {v : WorkerId} {y next : Worker} {e : Envelope} {rest : Mailbox} {deadline : Alarm}
      (accepts : Accepts s v y e rest deadline) (workers : t.workers = s.workers.set v next)
      (mailbox : next.mailbox = rest.grant.2)
      (listed : .accepted c w ∈ .accepted e.caller v :: s.events) :
      ∃ x, t.callers.get? c = some x ∧ x.phase.hasSent = true ∧
        ∀ y, t.workers.get? w = some y → ∀ e ∈ y.mailbox.queue, e.caller ≠ c := by
    rcases List.mem_cons.mp listed with new | old
    · obtain ⟨rfl, rfl⟩ := Event.accepted.inj new
      obtain ⟨x, known, awaiting⟩ := awaits_iff.mp accepts.waits
      obtain ⟨x', here, -⟩ := change.later.callers _ x known
      obtain ⟨x'', known', goes⟩ := change.goes here (direct _)
      obtain rfl := Option.some.inj (known.symm.trans known')
      refine ⟨x', here, goes.sent (by rw [awaiting]; rfl), fun z there f inside same ↦ ?_⟩
      rw [workers, Table.get?_set_self accepts.found] at there
      obtain rfl := Option.some.inj there
      rw [mailbox, Mailbox.grant_queue] at inside
      have once := queue_once owned accepts.found accepts.waits
      rw [Mailbox.queue_of_pop? accepts.popped, List.map_cons, List.count_cons_self] at once
      have again : 0 < (rest.queue.map (·.caller)).count e.caller :=
        List.count_pos_iff.mpr (same ▸ List.mem_map_of_mem inside)
      omega
    · exact before old
  cases change with
  | leave =>
    rcases mem_events_leave.mp accepted with ⟨_, _, _, back⟩ | closed | own | old
    · exact absurd back (by simp)
    · exact absurd closed (by simp)
    · exact absurd own (by simp)
    · exact before old
  | connect accepts => exact now accepts rfl rfl accepted
  | lookup accepts => exact now accepts rfl rfl accepted
  | serve accepts =>
    exact now accepts rfl rfl ((List.mem_cons.mp accepted).resolve_left (by simp))
  | _ => exact before (by simpa [events] using accepted)

/-- Every use leaves it so. -/
theorem Touch.served (h : s.Served w) (touch : Touch s t) : t.Served w := by
  intro c accepted
  obtain ⟨x, known, sent, absent⟩ := h c (touch.recorded accepted (by simp) (by simp))
  obtain ⟨x', here⟩ := touch.known known
  refine ⟨x', here, (touch.goes known here).sent sent, fun z there e inside ↦ ?_⟩
  obtain ⟨y, found, -, -, -, same | ⟨-, _, _, pushed⟩⟩ := touch.of_worker there
  · exact absent y found e (same ▸ inside)
  · rw [pushed] at inside
    rcases List.mem_append.mp inside with before | new
    · exact absent y found e before
    · obtain rfl := List.mem_singleton.mp new
      exact (Nat.ne_of_lt (Table.lt_size known)).symm

/-- What a worker on its own has accepted is in its mailbox no more. -/
theorem Lone.served {policy : Policy} {connector : Ledger.Connector}
    (h : Lone policy connector key s) : s.Served 0 := by
  induction h with
  | refl =>
    have same := congrArg State.journal (bare_spawn (start policy connector) key)
    have journal : (lone policy connector key).journal = _ := same
    intro c accepted
    rw [events, journal] at accepted
    exact absurd (List.mem_singleton.mp accepted) (by simp)
  | @tail s t before solo ih =>
    have single := Solos.single (single_lone policy connector key) before
    have served : s.bare.Served 0 := ih
    have kept : t.bare.Served 0 := by
      rcases solo.step_or_touch with taken | touch
      · rcases step_changes taken with ⟨τ, -, changes⟩ | same
        · refine (Changes.preserve (P := fun s ↦ s.Single key ∧ s.Served 0) ?_ ⟨single, served⟩
            changes).2
          exact fun h change ↦
            ⟨change.single h.1, change.served h.2 h.1.owned h.1.direct⟩
        · exact same ▸ served
      · exact touch.served served
    exact kept

end Sending

end State

end Signatory.Service
