import Signatory.Proofs.Service.Moves

/-!
# Every request is executed at most once

A caller has one execution to spend. It keeps it while its request is on the way and while its
envelope is in a mailbox, gets it back when the envelope is handed back, and spends it when the
envelope is accepted; nothing ever gives it another.
-/

namespace Signatory.Service

/-- Whether an event is the acceptance of a caller's request. -/
def Event.accepts (c : CallerId) : Event → Bool
  | .accepted d _ => d = c
  | _ => false

/-- How often a caller's request was executed. -/
def executions (journal : List Entry) (c : CallerId) : Nat :=
  journal.countP (·.event.accepts c)

/-- How many envelopes of a caller are in the mailbox of a worker. -/
def queued (workers : Table Worker) (w : WorkerId) (c : CallerId) : Nat :=
  match workers.get? w with
  | some y => (y.mailbox.queue.map (·.caller)).count c
  | none => 0

/-- How many executions a caller has left. -/
def credit (workers : Table Worker) (c : CallerId) : Option Phase → Nat
  | some (.awaiting w) => queued workers w c
  | some (.replied _ .handedBack) => 1
  | some (.replied _ _) => 0
  | some (.ended _) => 0
  | _ => 1

section Credit

variable {workers after : Table Worker} {callers : Table Caller} {w v : WorkerId} {y z : Worker}
  {c d : CallerId} {x next : Caller}

theorem queued_of_found (found : workers.get? w = some y) (c : CallerId) :
    queued workers w c = (y.mailbox.queue.map (·.caller)).count c := by
  rw [queued, found]

/-- The envelopes in the other mailboxes stay when a worker changes. -/
theorem queued_set (found : workers.get? w = some y) (v : WorkerId) (c : CallerId) :
    queued (workers.set w z) v c =
      if w = v then (z.mailbox.queue.map (·.caller)).count c else queued workers v c := by
  unfold queued
  rw [Table.get?_set found]
  by_cases same : w = v
  · rw [if_pos same, if_pos same]
  · rw [if_neg same, if_neg same]

/-- No envelope appears in a mailbox that keeps its queue. -/
theorem queued_set_le (found : workers.get? w = some y)
    (queue : ∀ c, (z.mailbox.queue.map (·.caller)).count c ≤
      (y.mailbox.queue.map (·.caller)).count c) (v : WorkerId) (c : CallerId) :
    queued (workers.set w z) v c ≤ queued workers v c := by
  rw [queued_set found]
  split
  next same => rw [← same, queued_of_found found]; exact queue c
  next => exact Nat.le_refl _

/-- Nothing changes in the mailboxes if a worker keeps its queue. -/
theorem queued_set_same (found : workers.get? w = some y)
    (queue : z.mailbox.queue = y.mailbox.queue) (v : WorkerId) (c : CallerId) :
    queued (workers.set w z) v c ≤ queued workers v c :=
  queued_set_le found (fun _ ↦ Nat.le_of_eq (by rw [queue])) v c

/-- Nothing changes in the mailboxes if a worker keeps its queue, whatever it is. -/
theorem queued_update_le {f : Worker → Worker}
    (queue : ∀ y, (f y).mailbox.queue = y.mailbox.queue) (v : WorkerId) (c : CallerId) :
    queued (workers.update w f) v c ≤ queued workers v c := by
  cases known : workers.get? w with
  | none =>
    exact Nat.le_of_eq (by
      rw [Table.update_self fun y found ↦ absurd (known.symm.trans found) (by simp)])
  | some y =>
    rw [Table.update_eq_set known]
    exact queued_set_same known (queue y) v c

/-- No envelope appears in the mailbox of a worker that is created. -/
theorem queued_push_le (empty : z.mailbox.queue = []) (v : WorkerId) (c : CallerId) :
    queued (workers.push z) v c ≤ queued workers v c := by
  unfold queued
  rw [Table.get?_push]
  by_cases same : v = workers.size
  · rw [if_pos same]
    dsimp only
    rw [empty]
    exact Nat.zero_le _
  · exact Nat.le_of_eq (by rw [if_neg same])

/-- A caller has fewer executions left if there are fewer envelopes. -/
theorem credit_mono (fewer : ∀ v, queued after v c ≤ queued workers v c) (p : Option Phase) :
    credit after c p ≤ credit workers c p := by
  unfold credit
  split
  next v => exact fewer v
  all_goals exact Nat.le_refl _

/-- A caller who goes on without another execution changes nothing for the others. -/
theorem credit_set_le (found : callers.get? c = some x)
    (fewer : credit workers c (some next.phase) ≤ credit workers c (some x.phase))
    (d : CallerId) :
    credit workers d (phase? (callers.set c next) d) ≤ credit workers d (phase? callers d) := by
  rw [phase?_set found]
  split
  next same => rw [← same, phase?_of_found found]; exact fewer
  next => exact Nat.le_refl _

/-- What a caller is doing once another, or the same, has a reply. -/
theorem phase?_reply (w : WorkerId) (r : Reply) (callers : Table Caller) (c d : CallerId) :
    phase? (callers.update c (Caller.reply w r)) d =
      if c = d ∧ claim w (phase? callers d) = 1 then some (.replied w r)
      else phase? callers d := by
  have all := Owned.phase?_replyAll w r [⟨"", .syncNonce, c⟩] callers d
  rw [replyAll, List.foldl_cons, List.foldl_nil] at all
  rw [all]
  simp only [List.map_cons, List.map_nil, List.mem_singleton, eq_comm]

/-- A caller that waits is in that phase. -/
theorem phase?_of_awaits (waits : (callers.get? c).any (Caller.awaits w) = true) :
    phase? callers c = some (.awaiting w) := by
  unfold phase?
  cases known : callers.get? c with
  | none => simp [known] at waits
  | some x =>
    rw [known, Option.any_some, Caller.awaits_iff] at waits
    rw [Option.map_some, waits]

/-- An answer gives nobody an execution. -/
theorem credit_answer_le (w : WorkerId) (r : Result) (callers : Table Caller) (c d : CallerId) :
    credit workers d (phase? (callers.update c (Caller.reply w (.answered r))) d) ≤
      credit workers d (phase? callers d) := by
  rw [phase?_reply]
  split
  next => exact Nat.zero_le _
  next => exact Nat.le_refl _

end Credit

namespace State

/-- How many executions a caller has spent or has left. -/
def budget (s : State) (c : CallerId) : Nat :=
  executions s.journal c + credit s.workers c (phase? s.callers c)

variable {s t : State} {τ : Task} {w : WorkerId} {worker : Worker} {e : Envelope} {rest : Mailbox}
  {c : CallerId}

/-- A caller's budget does not grow unless its request is executed or it gets executions. -/
theorem budget_le_of (journal : executions t.journal c = executions s.journal c)
    (queue : ∀ v, queued t.workers v c ≤ queued s.workers v c)
    (phase : credit s.workers c (phase? t.callers c) ≤ credit s.workers c (phase? s.callers c)) :
    t.budget c ≤ s.budget c := by
  unfold budget
  rw [journal]
  exact Nat.add_le_add_left (Nat.le_trans (credit_mono queue _) phase) _

/-- What is handed back is not executed. -/
theorem executions_returns (time : Nat) (w : WorkerId) (es : List Envelope)
    (callers : Table Caller) (c : CallerId) : executions (returns time w es callers) c = 0 := by
  apply List.countP_eq_zero.mpr
  intro entry back
  obtain ⟨e, -, -, rfl⟩ := mem_returns.mp back
  exact Bool.false_ne_true

/-- A caller's request is executed once more when it is accepted. -/
theorem executions_accepted (time : Nat) (d : CallerId) (w : WorkerId) (journal : List Entry)
    (c : CallerId) :
    executions (⟨time, .accepted d w⟩ :: journal) c =
      executions journal c + if d = c then 1 else 0 := by
  unfold executions
  rw [List.countP_cons]
  simp only [Event.accepts, decide_eq_true_eq]

/-- The envelope that a worker takes is one fewer in its mailbox. -/
theorem Takes.queued (takes : Takes s w worker e rest) (c : CallerId) :
    (worker.mailbox.queue.map (·.caller)).count c =
      (rest.grant.2.queue.map (·.caller)).count c + if e.caller = c then 1 else 0 := by
  rw [Mailbox.grant_queue, Mailbox.queue_of_pop? takes.popped, List.map_cons, List.count_cons]
  simp only [beq_iff_eq]

/-- A worker that accepts an envelope spends the execution of its caller. -/
theorem Accepts.budget_le {deadline : Alarm} (accepts : Accepts s w worker e rest deadline)
    {z : Worker} (mailbox : z.mailbox = rest.grant.2)
    (workers : t.workers = s.workers.set w z) (c : CallerId)
    (journal : executions t.journal c = executions s.journal c + if e.caller = c then 1 else 0)
    (callers : phase? t.callers c = phase? s.callers c ∨
      e.caller = c ∧ credit t.workers c (phase? t.callers c) = 0) :
    t.budget c ≤ s.budget c := by
  have takes := accepts.toTakes
  have found := takes.found
  have counts := takes.queued c
  unfold budget
  rw [journal]
  by_cases mine : e.caller = c
  · rw [if_pos mine] at counts ⊢
    have waiting : phase? s.callers c = some (.awaiting w) := by
      have waits := accepts.waits
      rw [awaits_eq, mine] at waits
      exact phase?_of_awaits waits
    have before : credit s.workers c (phase? s.callers c) =
        (worker.mailbox.queue.map (·.caller)).count c := by
      rw [waiting]
      exact queued_of_found found c
    have after : credit t.workers c (phase? t.callers c) ≤
        (rest.grant.2.queue.map (·.caller)).count c := by
      rcases callers with same | ⟨-, none⟩
      · rw [same, waiting, workers]
        change queued (s.workers.set w z) w c ≤ _
        exact Nat.le_of_eq (by rw [queued_set found, if_pos rfl, mailbox])
      · rw [none]
        exact Nat.zero_le _
    omega
  · rw [if_neg mine] at counts ⊢
    rw [callers.resolve_right fun both ↦ mine both.1]
    refine Nat.add_le_add_left (credit_mono (fun v ↦ ?_) _) _
    rw [workers, queued_set found, mailbox]
    split
    next same => rw [← same, queued_of_found found]; omega
    next => exact Nat.le_refl _

/-- A worker that takes an envelope has no others than before. -/
theorem Takes.queued_le (takes : Takes s w worker e rest) {z : Worker}
    (mailbox : z.mailbox = rest.grant.2) (v : WorkerId) (c : CallerId) :
    Service.queued (s.workers.set w z) v c ≤ Service.queued s.workers v c := by
  refine queued_set_le takes.found (fun c ↦ ?_) v c
  rw [mailbox, takes.queued c]
  exact Nat.le_add_right _ _

/-- A caller that puts its envelope into a mailbox keeps its execution. -/
theorem enqueue_budget_le (h : Owned s.workers s.callers) (found : s.workers.get? w = some worker)
    {caller : Caller} (known : s.callers.get? c = some caller)
    (lone : caller.phase = .seeking ∨ ∃ v, caller.phase = .suspended v) {z : Worker}
    (queue : z.mailbox.queue = worker.mailbox.queue ++ [⟨caller.key, caller.request, c⟩])
    (workers : t.workers = s.workers.set w z)
    (callers : t.callers = s.callers.set c { caller with phase := .awaiting w })
    (d : CallerId) (journal : executions t.journal d = executions s.journal d) :
    t.budget d ≤ s.budget d := by
  have queued_at (v : WorkerId) : queued t.workers v d =
      queued s.workers v d + if w = v ∧ c = d then 1 else 0 := by
    rw [workers, queued_set found, queue, List.map_append, List.count_append]
    by_cases same : w = v
    · rw [if_pos same, ← same, queued_of_found found]
      simp only [List.map_cons, List.map_nil, List.count_singleton, beq_iff_eq, true_and]
    · rw [if_neg same, if_neg fun both ↦ same both.1]
      rfl
  unfold budget
  rw [journal, callers]
  apply Nat.add_le_add_left
  by_cases mine : c = d
  · subst mine
    rw [phase?_set_self known, phase?_of_found known]
    have absent : worker.held.count c = 0 := by
      have fits := h.fits (c := c) found
      rw [phase?_of_found known] at fits
      rcases lone with seeking | ⟨v, suspended⟩
      · rw [seeking] at fits
        exact fits.absent rfl rfl
      · rw [suspended] at fits
        exact fits.absent rfl rfl
    rw [Worker.held, Worker.envelopes, List.map_append, List.count_append] at absent
    have one : credit s.workers c (some caller.phase) = 1 := by
      rcases lone with seeking | ⟨v, suspended⟩
      · rw [seeking]
        rfl
      · rw [suspended]
        rfl
    change queued t.workers w c ≤ _
    rw [queued_at, queued_of_found found, one]
    simp only [and_self, if_true]
    omega
  · rw [phase?_set_ne mine]
    refine credit_mono (fun v ↦ ?_) _
    rw [queued_at, if_neg fun both ↦ mine both.2]
    exact Nat.le_refl _

/-- No caller ever gets another execution. -/
theorem Change.budget_le (h : Owned s.workers s.callers) (change : Change s τ t) (c : CallerId) :
    t.budget c ≤ s.budget c := by
  have same (v : WorkerId) : queued s.workers v c ≤ queued s.workers v c := Nat.le_refl _
  cases change with
  | rest => exact Nat.le_refl _
  | @leave w worker reason found idle cause =>
    refine budget_le_of ?_ ?_ ?_
    · unfold executions
      rw [List.countP_append, ← executions, executions_returns, Nat.zero_add]
      rfl
    · exact fun v ↦ queued_set_le found (fun c ↦ Nat.zero_le _) v c
    · rw [Owned.phase?_replyAll]
      split
      next both =>
        have least := (h.fits (c := c) found).least
        rw [both.2, Worker.held, Worker.envelopes_of_idle idle] at least
        rw [eq_awaiting both.2]
        change 1 ≤ queued s.workers w c
        rw [queued_of_found found]
        exact least
      next => exact Nat.le_refl _
  | @die w worker hand mailbox found cause =>
    refine budget_le_of ?_ ?_ ?_
    · rfl
    · exact fun v ↦ queued_set_le found (fun c ↦ Nat.zero_le _) v c
    · rw [Owned.phase?_replyAll]
      split
      next => exact Nat.zero_le _
      next => exact Nat.le_refl _
  | skip takes => exact budget_le_of rfl (fun v ↦ takes.queued_le rfl v c) (Nat.le_refl _)
  | misroute takes =>
    exact budget_le_of rfl (fun v ↦ takes.queued_le rfl v c) (credit_answer_le _ _ _ _ _)
  | connect accepts => exact accepts.budget_le rfl rfl c (executions_accepted _ _ _ _ _) (.inl rfl)
  | lookup accepts => exact accepts.budget_le rfl rfl c (executions_accepted _ _ _ _ _) (.inl rfl)
  | serve accepts =>
    refine accepts.budget_le rfl rfl c (executions_accepted _ _ _ _ _) ?_
    rw [phase?_reply]
    split
    next both => exact .inr ⟨both.1, rfl⟩
    next => exact .inl rfl
  | finish found =>
    exact budget_le_of rfl (queued_set_same found (by rfl) · c)
      (credit_answer_le _ _ _ _ _)
  | again found =>
    exact budget_le_of rfl (queued_set_same found (by rfl) · c) (Nat.le_refl _)
  | begin found fresh =>
    exact budget_le_of rfl same (credit_set_le found (by rw [fresh]; exact Nat.le_refl 1) c)
  | beginDirect found fresh =>
    exact budget_le_of rfl same (credit_set_le found (by rw [fresh]; exact Nat.le_refl 1) c)
  | spawn => exact budget_le_of rfl (queued_push_le rfl · c) (Nat.le_refl _)
  | push offers found =>
    exact enqueue_budget_le h found offers.found (.inl offers.seeking) rfl rfl rfl c rfl
  | suspend offers found =>
    refine budget_le_of rfl (queued_set_same found (by rfl) · c) ?_
    exact credit_set_le offers.found (by rw [offers.seeking]; exact Nat.le_refl 1) c
  | refuse offers =>
    refine budget_le_of rfl same ?_
    exact credit_set_le offers.found (Nat.le_of_eq (by rw [offers.seeking])) c
  | refuseDirect offers =>
    exact budget_le_of rfl same (credit_set_le offers.found (Nat.zero_le _) c)
  | occupy known suspended found =>
    exact enqueue_budget_le h found known (.inr ⟨_, suspended⟩) rfl rfl rfl c rfl
  | turnAway found suspended =>
    exact budget_le_of rfl same (credit_set_le found (by rw [suspended]; exact Nat.le_refl 1) c)
  | retry found replied =>
    exact budget_le_of rfl same (credit_set_le found (by rw [replied]; exact Nat.le_refl 1) c)
  | limit found => exact budget_le_of rfl same (credit_set_le found (by exact Nat.le_refl _) c)
  | conclude found => exact budget_le_of rfl same (credit_set_le found (Nat.zero_le _) c)
  | notFound found => exact budget_le_of rfl same (credit_set_le found (Nat.zero_le _) c)
  | lose found => exact budget_le_of rfl same (credit_set_le found (Nat.zero_le _) c)
  | giveUp found => exact budget_le_of rfl same (credit_set_le found (Nat.zero_le _) c)
  | withdraw found suspended =>
    refine budget_le_of rfl (fun v ↦ ?_) (credit_set_le found (Nat.zero_le _) c)
    refine queued_update_le (fun y ↦ ?_) v c
    rw [Mailbox.grant_queue]
    rfl

/-- No use gives a caller another execution. -/
theorem Use.budget_le (use : Use s t) (c : CallerId) : t.budget c ≤ s.budget c := by
  have same (v : WorkerId) : queued s.workers v c ≤ queued s.workers v c := Nat.le_refl _
  cases use with
  | rest => exact Nat.le_refl _
  | dispatch key request =>
    refine budget_le_of rfl same ?_
    unfold phase?
    rw [Table.get?_push]
    by_cases mine : c = s.callers.size
    · rw [if_pos mine, mine, Table.get?_size]
      exact Nat.le_refl 1
    · exact Nat.le_of_eq (by rw [if_neg mine])
  | drop found => exact budget_le_of rfl same (credit_set_le found (by exact Nat.le_refl _) c)
  | remove named => exact budget_le_of rfl (queued_update_le (by exact fun _ ↦ rfl) · c) (Nat.le_refl _)
  | notFound => exact Nat.le_refl _
  | @shutdown workers serving cancelled =>
    refine budget_le_of rfl (fun v ↦ ?_) (Nat.le_refl _)
    unfold queued
    dsimp only
    rw [cancelled v]
    cases s.workers.get? v with
    | none => exact Nat.le_refl _
    | some y => exact Nat.le_refl _
  | ledger => exact Nat.le_refl _
  | wait => exact Nat.le_refl _

/-- A request is accepted only by a worker that takes it out of its mailbox. -/
theorem Change.accepted (change : Change s τ t) (new : .accepted c w ∈ t.events) :
    .accepted c w ∈ s.events ∨
      ∃ worker e rest deadline, Accepts s w worker e rest deadline ∧ e.caller = c := by
  cases change with
  | leave => exact .inl (by simpa using mem_events_leave.mp new)
  | connect accepts =>
    simp only [events, List.map_cons, List.mem_cons, Event.accepted.injEq] at new
    rcases new with ⟨rfl, rfl⟩ | old
    · exact .inr ⟨_, _, _, _, accepts, rfl⟩
    · exact .inl old
  | lookup accepts =>
    simp only [events, List.map_cons, List.mem_cons, Event.accepted.injEq] at new
    rcases new with ⟨rfl, rfl⟩ | old
    · exact .inr ⟨_, _, _, _, accepts, rfl⟩
    · exact .inl old
  | serve accepts =>
    simp only [events, List.map_cons, List.mem_cons, Event.accepted.injEq, reduceCtorEq,
      false_or] at new
    rcases new with ⟨rfl, rfl⟩ | old
    · exact .inr ⟨_, _, _, _, accepts, rfl⟩
    · exact .inl old
  | _ => exact .inl (by simpa [events] using new)

/-- An envelope is handed back only by a worker that leaves, to a caller who waits for it. -/
theorem Change.handedBack (change : Change s τ t) (new : .handedBack c w ∈ t.events) :
    .handedBack c w ∈ s.events ∨
      ∃ reason, phase? t.callers c = some (.replied w .handedBack) ∧
        ∃ y, t.workers.get? w = some y ∧ y.activity = .left reason := by
  cases change with
  | @leave v worker reason found idle cause =>
    rcases mem_events_leave.mp new with ⟨e, inside, waits, back⟩ | old
    · right
      obtain ⟨rfl, rfl⟩ := Event.handedBack.inj back
      refine ⟨reason, ?_, _, Table.get?_set_self found, rfl⟩
      rw [Owned.phase?_replyAll, if_pos]
      refine ⟨List.mem_map_of_mem inside, ?_⟩
      rw [phase?_of_awaits waits]
      exact if_pos rfl
    · exact .inl (by simpa using old)
  | _ => exact .inl (by simpa [events] using new)

/-- Each request is where it belongs, is executed at most once, and is not executed by a worker that
hands it back. -/
structure Sole (s : State) : Prop where
  owned : Owned s.workers s.callers
  budget : ∀ c, s.budget c ≤ 1
  returned : ∀ {c w}, .handedBack c w ∈ s.events →
    .accepted c w ∉ s.events ∧ ∃ y, s.workers.get? w = some y ∧ y.activity.isOver = true

/-- An execution that is recorded is counted. -/
theorem executions_pos (accepted : .accepted c w ∈ s.events) : 0 < executions s.journal c := by
  obtain ⟨entry, recorded, event⟩ := List.mem_map.mp accepted
  apply List.countP_pos_iff.mpr
  exact ⟨entry, recorded, by rw [event, Event.accepts, decide_eq_true rfl]⟩

/-- A request whose caller has an execution left was not executed. -/
theorem Sole.not_accepted (h : s.Sole) (left : credit s.workers c (phase? s.callers c) = 1)
    (w : WorkerId) : .accepted c w ∉ s.events := by
  intro accepted
  have spent := executions_pos accepted
  have most := h.budget c
  unfold State.budget at most
  omega

/-- A worker that is over accepts nothing. -/
theorem Change.accepted_of_over (change : Change s τ t) {y : Worker}
    (found : s.workers.get? w = some y) (past : y.activity.isOver = true)
    (new : .accepted c w ∈ t.events) : .accepted c w ∈ s.events := by
  rcases change.accepted new with old | ⟨worker, e, rest, deadline, accepts, -⟩
  · exact old
  · have same := accepts.found
    rw [found] at same
    obtain rfl := Option.some.inj same
    rw [accepts.idle] at past
    exact absurd past Bool.false_ne_true

/-- Every change leaves requests where they belong and executes none twice. -/
theorem Change.sole (h : s.Sole) (change : Change s τ t) : t.Sole where
  owned := change.owned h.owned
  budget := fun c ↦ Nat.le_trans (change.budget_le h.owned c) (h.budget c)
  returned := by
    intro c w back
    rcases change.handedBack back with old | ⟨reason, phase, y, found, left⟩
    · obtain ⟨never, y, found, past⟩ := h.returned old
      obtain ⟨z, found', later⟩ := change.later.workers w y found
      refine ⟨fun accepted ↦ never (change.accepted_of_over found past accepted), z, found', ?_⟩
      rw [later.past past, past]
    · refine ⟨fun accepted ↦ ?_, y, found, by rw [left]; rfl⟩
      have spent := executions_pos accepted
      have budget := Nat.le_trans (change.budget_le h.owned c) (h.budget c)
      unfold State.budget at budget
      rw [phase] at budget
      simp only [credit] at budget
      omega

/-- Every use leaves requests where they belong and executes none. -/
theorem Use.sole (h : s.Sole) (use : Use s t) : t.Sole where
  owned := use.owned h.owned
  budget := fun c ↦ Nat.le_trans (use.budget_le c) (h.budget c)
  returned := by
    intro c w back
    have same {e : Event} (request : ∀ w, e ≠ .removed w) (open_ : e ≠ .shutDown)
        (new : e ∈ t.events) : e ∈ s.events := by
      rcases use.events_eq with eq | ⟨v, eq⟩ | eq
      · exact eq ▸ new
      · exact (List.mem_cons.mp (eq ▸ new)).resolve_left (request v)
      · exact (List.mem_cons.mp (eq ▸ new)).resolve_left open_
    obtain ⟨never, y, found, past⟩ := h.returned (same (by simp) (by simp) back)
    obtain ⟨z, found', later⟩ := use.later.workers w y found
    refine ⟨fun accepted ↦ never (same (by simp) (by simp) accepted), z, found', ?_⟩
    rw [later.past past, past]

/-- No request has been executed at the start. -/
theorem sole_start (policy : Policy) (connector : Ledger.Connector) :
    (start policy connector).Sole where
  owned := owned_start policy connector
  budget := by
    intro c
    simp [budget, executions, start, phase?, credit]
  returned := fun back ↦ absurd back List.not_mem_nil

/-- Requests are where they belong, and none is executed twice, in every state that can come
about. -/
theorem Reachable.sole (h : s.Reachable) : s.Sole := by
  have kept := Reachable.invariant (P := Sole) sole_start (fun h change ↦ change.sole h)
    (fun h use ↦ use.sole h) h
  exact ⟨kept.owned, kept.budget, kept.returned⟩

end State

end Signatory.Service
