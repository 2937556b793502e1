import Signatory.Proofs.Service.Addressing

/-!
# After a worker has left

A worker that is over does nothing more. What is left to do is done by the callers: who got an
envelope back learns of it, and so does who was suspended on the mailbox; whoever is late finds it
closed. So as soon as the tasks are let run, every call ends.
-/

namespace Signatory.Service

/-- The worker that does something, or gets something to do, if an event says so. -/
def Event.handling? : Event → Option WorkerId
  | .queued _ w | .skipped _ w | .accepted _ w | .answered _ w _ | .hooked w _ | .closed w
  | .handedBack _ w | .died w => some w
  | _ => none

/-- How often a caller still has to decide something once the worker that it addresses is over. -/
def Phase.doubts : Phase → Nat
  | .fresh => 2
  | .ended _ => 0
  | _ => 1

/-- How a call ends whose caller is in a phase that a worker which is over has left it in. -/
inductive Fated : Phase → Ending → Prop
  | rejected : Fated (.replied 0 .handedBack) .rejected
  | closed : Fated (.suspended 0) .closed
  | answered (r : Result) : Fated (.replied 0 (.answered r)) (.result r)

/-- A caller is still in a phase, or its call has ended in a certain way; or its caller has been
dropped. -/
def Caller.Comes (phase : Phase) (ending : Ending) (x : Caller) : Prop :=
  x.phase = phase ∨ x.phase = .ended ending ∨ x.phase = .ended .withdrawn ∧ x.dropped = true

namespace State

/-- What still happens once a worker is over: it does nothing any more and stays as it is, and the
callers come to their ends. -/
structure Aftermath (s t : State) : Prop where
  worker : ∀ y, s.workers.get? 0 = some y → ∃ z, t.workers.get? 0 = some z ∧
    z.activity = y.activity ∧ z.identity = y.identity ∧ z.mailbox = y.mailbox
  events : ∃ later, t.events = later ++ s.events ∧ ∀ event ∈ later, event.handling? = none
  callers : ∀ c x, s.callers.get? c = some x → ∃ x', t.callers.get? c = some x' ∧ x'.key = x.key ∧
    x'.request = x.request ∧
    ∀ phase ending, Fated phase ending → x.Comes phase ending → x'.Comes phase ending

variable {s t u : State} {τ : Task} {w : WorkerId} {y z : Worker} {c : CallerId} {x old : Caller}
  {key : String} {phase : Phase} {ending ending' : Ending} {policy : Policy}
  {connector : Ledger.Connector}

theorem Aftermath.refl (s : State) : Aftermath s s where
  worker := fun y found ↦ ⟨y, found, rfl, rfl, rfl⟩
  events := ⟨[], rfl, fun _ none ↦ absurd none List.not_mem_nil⟩
  callers := fun _ x known ↦ ⟨x, known, rfl, rfl, fun _ _ _ ↦ id⟩

theorem Aftermath.trans (first : Aftermath s t) (second : Aftermath t u) : Aftermath s u where
  worker := by
    intro y found
    obtain ⟨y', found', activity, identity, mailbox⟩ := first.worker y found
    obtain ⟨z, there, activity', identity', mailbox'⟩ := second.worker y' found'
    exact ⟨z, there, activity'.trans activity, identity'.trans identity, mailbox'.trans mailbox⟩
  events := by
    obtain ⟨later, events, silent⟩ := first.events
    obtain ⟨latest, events', silent'⟩ := second.events
    refine ⟨latest ++ later, by rw [events', events, List.append_assoc], fun event inside ↦ ?_⟩
    exact (List.mem_append.mp inside).elim (silent' event) (silent event)
  callers := by
    intro c x known
    obtain ⟨x', known', key, request, comes⟩ := first.callers c x known
    obtain ⟨x'', known'', key', request', comes'⟩ := second.callers c x' known'
    exact ⟨x'', known'', key'.trans key, request'.trans request,
      fun phase ending fated ↦ comes' phase ending fated ∘ comes phase ending fated⟩

section Ending

/-- The end that follows from a phase is the only one, unless the caller is dropped. -/
theorem Yields.fated (yields : Yields old ending) (fated : Fated old.phase ending') :
    ending = ending' ∨ ending = .withdrawn ∧ old.dropped = true := by
  generalize same : old.phase = phase at fated
  cases yields with
  | dropped dropped => exact .inr ⟨rfl, dropped⟩
  | answered replied =>
    rw [replied] at same
    cases fated with
    | rejected => exact absurd same (by simp)
    | closed => exact absurd same (by simp)
    | answered r =>
      obtain ⟨-, same⟩ := Phase.replied.inj same
      exact .inl (by rw [Reply.answered.inj same])
  | rejected replied =>
    rw [replied] at same
    cases fated with
    | rejected => exact .inl rfl
    | closed => exact absurd same (by simp)
    | answered => exact absurd same (by simp)
  | lost replied =>
    rw [replied] at same
    cases fated <;> exact absurd same (by simp)
  | closed waits =>
    cases fated with
    | closed => exact .inl rfl
    | _ =>
      rcases waits with seeking | ⟨w, suspended⟩
      · exact absurd (seeking.symm.trans same) (by simp)
      · exact absurd (suspended.symm.trans same) (by simp)

/-- A call that is over stays as it is, but its caller may be dropped. -/
theorem Goes.past (goes : Goes s old x) (past : old.phase = .ended ending) :
    x.phase = .ended ending ∧ (old.dropped = true → x.dropped = true) := by
  cases goes with
  | stay => exact ⟨past, id⟩
  | drop => exact ⟨past, fun _ ↦ rfl⟩
  | begin fresh => exact absurd (fresh.symm.trans past) (by simp)
  | send waits =>
    rcases waits with seeking | suspended
    · exact absurd (seeking.symm.trans past) (by simp)
    · exact absurd (suspended.symm.trans past) (by simp)
  | line seeking => exact absurd (seeking.symm.trans past) (by simp)
  | reply awaiting => exact absurd (awaiting.symm.trans past) (by simp)
  | stop live =>
    rw [past] at live
    exact absurd live (by simp [Phase.isEnded])

/-- A caller who has been left in a phase comes to the end that follows, once the mailbox of the
worker is closed. -/
theorem Goes.comes (goes : Goes s old x) (fated : Fated phase ending)
    (closed : ∀ y, s.workers.get? 0 = some y → y.mailbox.closed = true)
    (comes : old.Comes phase ending) : x.Comes phase ending := by
  rcases comes with same | past | ⟨past, dropped⟩
  · subst same
    have other {p : Prop} {next : Phase} (here : old.phase = next)
        (apart : ¬ Fated next ending) : p := absurd (here ▸ fated) apart
    cases goes with
    | stay => exact .inl rfl
    | drop => exact .inl rfl
    | begin fresh => exact other fresh nofun
    | @send w y waits found opened =>
      rcases waits with seeking | suspended
      · exact other seeking nofun
      · rw [suspended] at fated
        cases fated
        exact absurd ((closed y found).symm.trans opened) (by simp)
    | line seeking => exact other seeking nofun
    | reply awaiting => exact other awaiting nofun
    | stop _ yields =>
      rcases yields.fated fated with rfl | ⟨rfl, dropped⟩
      · exact .inr (.inl rfl)
      · exact .inr (.inr ⟨rfl, dropped⟩)
  · exact .inr (.inl (goes.past past).1)
  · exact .inr (.inr ⟨(goes.past past).1, (goes.past past).2 dropped⟩)

/-- A caller that gives up leaves a mailbox that is closed as it is. -/
theorem withdraw_of_closed (h : s.Single key) (found : s.workers.get? 0 = some y)
    (past : y.activity.isOver = true) (c : CallerId) :
    (y.mailbox.withdraw c).grant.2 = y.mailbox := by
  have closed : y.mailbox.closed = true := (h.owned.shut found).trans past
  have lined (d : CallerId) : d ∉ y.mailbox.lined := by
    have none := (h.owned.fits (c := d) found).lined
    rw [closed, if_pos rfl] at none
    exact List.count_eq_zero.mp none
  have reserved : c ∉ y.mailbox.reserved := fun here ↦ lined c (List.mem_append_left _ here)
  have waiting : y.mailbox.waiting = [] :=
    List.eq_nil_iff_forall_not_mem.mpr fun d here ↦ lined d (List.mem_append_right _ here)
  have same : y.mailbox.withdraw c = y.mailbox := by
    rw [Mailbox.withdraw, List.erase_of_not_mem reserved, waiting, List.erase_nil, ← waiting]
  rw [same, Mailbox.grant, waiting]

/-- Once the worker is over, every change leaves it alone. -/
theorem Change.aftermath (h : s.Single key) (found : s.workers.get? 0 = some y)
    (past : y.activity.isOver = true) (change : Change s τ t) : Aftermath s t := by
  have closed : y.mailbox.closed = true := (h.owned.shut found).trans past
  have same {v : WorkerId} {worker : Worker} (found' : s.workers.get? v = some worker) :
      worker = y := by
    obtain rfl := (h.only v worker found').1
    exact Option.some.inj (found'.symm.trans found)
  have busy {p : Prop} {v : WorkerId} {worker : Worker} (found' : s.workers.get? v = some worker)
      (live : worker.activity.isOver = false) : p :=
    absurd (past.symm.trans (same found' ▸ live)) (by simp)
  have taking {p : Prop} {v : WorkerId} {worker : Worker} {e : Envelope} {rest : Mailbox}
      (takes : Takes s v worker e rest) : p := busy takes.found (by rw [takes.idle]; rfl)
  have opened {p : Prop} {v : WorkerId} {worker : Worker} (found' : s.workers.get? v = some worker)
      (opened : worker.mailbox.closed = false) : p :=
    absurd (closed.symm.trans (same found' ▸ opened)) (by simp)
  have asking {p : Prop} {c : CallerId} {x : Caller} (known : s.callers.get? c = some x)
      (none : x.direct = none) : p :=
    absurd ((h.direct c x known).symm.trans none) (by simp)
  have callers (c : CallerId) (x : Caller) (known : s.callers.get? c = some x) :
      ∃ x', t.callers.get? c = some x' ∧ x'.key = x.key ∧ x'.request = x.request ∧
        ∀ phase ending, Fated phase ending → x.Comes phase ending → x'.Comes phase ending := by
    obtain ⟨x', here, -⟩ := change.later.callers c x known
    obtain ⟨old, known', goes⟩ := change.goes here (h.direct c)
    obtain rfl := Option.some.inj (known.symm.trans known')
    refine ⟨x', here, goes.same.1, goes.same.2, fun phase ending fated ↦ ?_⟩
    refine goes.comes fated fun z there ↦ ?_
    rw [same there]
    exact closed
  have quiet (es : List Entry) (workers : t.workers.get? 0 = some y)
      (journal : t.journal = es ++ s.journal)
      (silent : ∀ entry ∈ es, entry.event.handling? = none) : Aftermath s t := by
    refine ⟨fun y' found' ↦ ⟨y', ?_, rfl, rfl, rfl⟩, ⟨es.map (·.event), ?_, fun event inside ↦ ?_⟩,
      callers⟩
    · rw [workers, same found']
    · rw [events, events, journal, List.map_append]
    · obtain ⟨entry, listed, rfl⟩ := List.mem_map.mp inside
      exact silent entry listed
  have still (workers : t.workers.get? 0 = some y) (journal : t.journal = s.journal) :
      Aftermath s t := quiet [] workers journal fun _ none ↦ absurd none List.not_mem_nil
  have once {entry : Entry} (workers : t.workers.get? 0 = some y)
      (journal : t.journal = entry :: s.journal) (silent : entry.event.handling? = none) :
      Aftermath s t :=
    quiet [entry] workers journal fun _ here ↦ List.mem_singleton.mp here ▸ silent
  cases change with
  | rest => exact .refl s
  | leave found' idle => exact busy found' (by rw [idle]; rfl)
  | die found' cause => exact busy found' cause.live
  | skip takes => exact taking takes
  | misroute takes => exact taking takes
  | connect accepts => exact taking accepts.toTakes
  | lookup accepts => exact taking accepts.toTakes
  | serve accepts => exact taking accepts.toTakes
  | finish found' finishes => exact busy found' finishes.live
  | again found' syncing => exact busy found' (by rw [syncing]; rfl)
  | begin known _ none => exact asking known none
  | beginDirect => exact still found rfl
  | spawn known _ none => exact asking known none
  | push _ found' free => exact opened found' free
  | suspend _ found' free => exact opened found' free
  | refuse offers _ none => exact asking offers.found none
  | refuseDirect =>
    refine quiet [_, _] found rfl fun entry inside ↦ ?_
    rcases List.mem_cons.mp inside with rfl | inside
    · rfl
    · obtain rfl := List.mem_singleton.mp inside
      rfl
  | occupy _ _ found' free => exact opened found' free
  | turnAway known _ _ none => exact asking known none
  | retry known _ none => exact asking known none
  | limit known _ none => exact asking known none
  | conclude => exact once found rfl rfl
  | notFound known _ none => exact asking known none
  | lose known _ none => exact asking known none
  | giveUp => exact once found rfl rfl
  | withdraw =>
    refine once ?_ rfl rfl
    rw [Table.get?_update]
    split
    next =>
      rw [found, Option.map_some, withdraw_of_closed h found past]
    next => exact found

/-- Once the worker is over, every use leaves it alone. -/
theorem Touch.aftermath (h : s.Single key) (found : s.workers.get? 0 = some y)
    (past : y.activity.isOver = true) (touch : Touch s t) : Aftermath s t where
  worker := by
    intro y' found'
    obtain rfl := Option.some.inj (found.symm.trans found')
    obtain ⟨z, there⟩ := touch.present found
    obtain ⟨y', found', -, activity, identity, mailbox⟩ := touch.of_worker there
    obtain rfl := Option.some.inj (found.symm.trans found')
    refine ⟨z, there, activity, identity, mailbox.resolve_right fun ⟨opened, _⟩ ↦ ?_⟩
    exact absurd (opened.symm.trans ((h.owned.shut found).trans past)) (by simp)
  events := by
    obtain ⟨new, journal, other⟩ := touch.journal
    refine ⟨new.map (·.event), by rw [events, events, journal, List.map_append], ?_⟩
    intro event inside
    obtain ⟨entry, listed, rfl⟩ := List.mem_map.mp inside
    rcases other entry listed with ⟨w, same⟩ | same <;> rw [same] <;> rfl
  callers := by
    intro c x known
    obtain ⟨x', here⟩ := touch.known known
    have goes := touch.goes known here
    refine ⟨x', here, goes.same.1, goes.same.2, fun phase ending fated ↦ ?_⟩
    refine goes.comes fated fun z there ↦ ?_
    obtain rfl := Option.some.inj (found.symm.trans there)
    exact (h.owned.shut found).trans past

/-- What is left to do once the worker is over, in a run of a worker on its own. -/
theorem Lone.aftermath (h : Lone policy connector key s) (found : s.workers.get? 0 = some y)
    (past : y.activity.isOver = true) (solos : Solos s t) : Aftermath s t := by
  induction solos with
  | refl => exact .refl s
  | @tail t u before solo ih =>
    have single := Solos.single (single_lone policy connector key) (h.trans before)
    obtain ⟨z, there, activity, -⟩ := ih.worker y found
    have past : z.activity.isOver = true := activity ▸ past
    have next : Aftermath t.bare u.bare := by
      rcases solo.step_or_touch with taken | touch
      · rcases step_changes taken with ⟨τ, -, changes⟩ | same
        · refine (Changes.preserve (P := fun u ↦ u.Single key ∧ Aftermath t.bare u) ?_
            ⟨single, .refl _⟩ changes).2
          intro u υ v kept change
          obtain ⟨z', there', activity', -⟩ := kept.2.worker z there
          exact ⟨change.single kept.1,
            kept.2.trans (change.aftermath kept.1 there' (activity' ▸ past))⟩
        · exact same ▸ .refl _
      · exact touch.aftermath single there past
    have next : Aftermath t u := ⟨next.worker, next.events, next.callers⟩
    exact ih.trans next

end Ending

section Finishing

/-- Once the worker is over and every task waits, every call has ended. -/
theorem Lone.ended (h : Lone policy connector key s) (found : s.workers.get? 0 = some y)
    (past : y.activity.isOver = true) (idle : s.step = none)
    (known : s.callers.get? c = some x) : x.phase.isEnded = true := by
  have single := h.single
  have waits := idle_of_step idle
  have only {v : WorkerId} {z : Worker} (there : s.workers.get? v = some z) : v = 0 ∧ z = y := by
    obtain rfl := (single.only v z there).1
    exact ⟨rfl, Option.some.inj (there.symm.trans found)⟩
  rcases h.heeded c x known with attends | stands
  · exact absurd (attends.called waits.rests) waits.not_called
  · cases stands with
    | past past => exact past
    | @reply w awaiting =>
      obtain ⟨z, there⟩ := single.owned.present known (w := w) (by rw [awaiting]; rfl)
      obtain ⟨rfl, rfl⟩ := only there
      exact absurd awaiting (not_awaiting_of_over single.owned single.empty found past known)
    | line suspended there waits =>
      obtain ⟨rfl, rfl⟩ := only there
      exact absurd waits (not_waiting_of_over single.owned found past)

/-- How often the callers still have to decide something. -/
def decisions (s : State) : Nat :=
  s.callers.total fun x ↦ x.phase.doubts

/-- There is less to decide once a caller has decided something. -/
theorem decisions_lt {x' : Caller} (known : s.callers.get? c = some x)
    (callers : t.callers = s.callers.set c x') (less : x'.phase.doubts < x.phase.doubts) :
    t.decisions < s.decisions := by
  have whole := Table.total_set (f := fun x ↦ x.phase.doubts) (b := x') known
  rw [decisions, decisions, callers]
  omega

/-- A call that ends leaves less to decide. -/
theorem decisions_conclude (known : s.callers.get? c = some x) (live : x.phase.isEnded = false)
    (callers : u.callers = s.callers) (ending : Ending) :
    (u.conclude c ending).decisions < s.decisions := by
  have after := congrArg State.callers (bare_conclude u c ending)
  have after : (u.conclude c ending).callers = u.callers.update c _ := after
  rw [callers, Table.update_eq_set known] at after
  refine decisions_lt known after ?_
  cases phase : x.phase with
  | ended => exact absurd live (by simp [phase, Phase.isEnded])
  | _ => simp [Phase.doubts]

/-- A caller whose call is not over decides something in each step, once the worker that it
addresses is over. -/
theorem Single.decides (h : s.Single key) (found : s.workers.get? 0 = some y)
    (past : y.activity.isOver = true) (known : s.callers.get? c = some x)
    (live : x.phase.isEnded = false) : (s.stepCaller c).decisions < s.decisions := by
  have direct := h.direct c x known
  have closed : y.mailbox.closed = true := (h.owned.shut found).trans past
  have turned {u : State} (callers : u.callers = s.callers) (w : WorkerId) :
      (u.turnedAway c x w).decisions < s.decisions := by
    rw [turnedAway, direct]
    exact decisions_conclude known live callers _
  unfold stepCaller
  rw [known]
  dsimp only
  rw [if_neg (by simp [live])]
  split
  next => exact decisions_conclude known live (callers_withdraw s c x) _
  next =>
    cases phase : x.phase with
    | fresh =>
      dsimp only
      rw [begin, direct]
      refine decisions_lt known (Table.update_eq_set known _) ?_
      rw [phase]
      exact Nat.one_lt_two
    | seeking =>
      rw [direct]
      dsimp only
      have found : (s.log (.offered c 0)).workers.get? 0 = some y := found
      rw [offer, found]
      dsimp only
      rw [if_pos closed]
      exact turned (by exact rfl) 0
    | suspended w =>
      dsimp only
      obtain ⟨z, there⟩ := h.owned.present known (w := w) (by rw [phase]; rfl)
      obtain rfl := (h.only w z there).1
      rw [resume, found]
      dsimp only
      rw [if_pos closed]
      exact turned rfl 0
    | awaiting w =>
      obtain ⟨z, there⟩ := h.owned.present known (w := w) (by rw [phase]; rfl)
      obtain rfl := (h.only w z there).1
      exact absurd phase (not_awaiting_of_over h.owned h.empty found past known)
    | replied w r =>
      dsimp only
      cases r with
      | answered r => exact decisions_conclude known live rfl _
      | handedBack =>
        rw [receive, direct]
        exact decisions_conclude known live rfl _
      | lost =>
        rw [receive, direct]
        exact decisions_conclude known live rfl _
    | ended => exact absurd live (by simp [phase, Phase.isEnded])

/-- Once the worker is over, a task that runs decides something or rests. -/
theorem Single.decides_or_rests (h : s.Single key) (found : s.workers.get? 0 = some y)
    (past : y.activity.isOver = true) (running : s.running = some τ) (taken : s.step = some t) :
    t.decisions < s.decisions ∨ t = s.rest := by
  unfold step at taken
  rw [running] at taken
  cases τ with
  | worker w =>
    right
    refine (Option.some.inj taken).symm.trans ?_
    unfold stepWorker
    split
    next => rfl
    next z there =>
      obtain rfl := (h.only w z there).1
      obtain rfl := Option.some.inj (there.symm.trans found)
      cases activity : z.activity with
      | left => rfl
      | died => rfl
      | _ => exact absurd past (by simp [activity, Activity.isOver])
  | caller c =>
    obtain rfl := Option.some.inj taken
    cases known : s.callers.get? c with
    | none =>
      right
      rw [stepCaller, known]
    | some x =>
      cases live : x.phase.isEnded with
      | false => exact .inl (h.decides found past known live)
      | true =>
        right
        rw [stepCaller, known]
        exact if_pos live

/-- Once the worker is over, each step leaves less to do. -/
theorem Single.nearer (h : s.Single key) (found : s.workers.get? 0 = some y)
    (past : y.activity.isOver = true) (taken : s.step = some t) :
    Prod.Lex (· < ·) (· < ·) (t.decisions, t.pace) (s.decisions, s.pace) := by
  cases running : s.running with
  | some τ =>
    rcases h.decides_or_rests found past running taken with less | rfl
    · exact .left _ _ less
    · exact .right _ (pace_rest running)
  | none =>
    obtain ⟨⟨_, _, _, rfl⟩, paced⟩ := step_chooses running taken
    exact .right _ paced

/-- As soon as the tasks are let run once the worker is over, every task comes to wait. -/
theorem Lone.calms {s : State} {y : Worker} (h : Lone policy connector key s)
    (found : s.workers.get? 0 = some y) (past : y.activity.isOver = true) :
    ∃ fuel, (runReady fuel s).step = none := by
  cases taken : s.step with
  | none => exact ⟨0, taken⟩
  | some t =>
    have solo : Solo s t := .step taken
    obtain ⟨z, there, activity, -⟩ := (h.aftermath found past (.tail .refl solo)).worker y found
    obtain ⟨fuel, calm⟩ := Lone.calms (h.tail solo) there (activity ▸ past)
    refine ⟨fuel + 1, ?_⟩
    rw [runReady, taken]
    exact calm
termination_by (s.decisions, s.pace)
decreasing_by exact h.single.nearer found past taken

end Finishing

end State

end Signatory.Service
