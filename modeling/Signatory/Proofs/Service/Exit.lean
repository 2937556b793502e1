import Signatory.Proofs.Service.Aftermath

/-!
# The exit of a worker

However a worker on its own comes to leave, it runs its exit hook once and closes its mailbox after
that; it works on no request any more. Whoever still waits for one of the envelopes in the mailbox
gets the request back, the oldest first, and whoever is suspended on the mailbox finds it closed. An
envelope that is meant for another makes the worker leave, whatever its identity is.
-/

namespace Signatory.Service.State

variable {s t u v : State} {w : WorkerId} {y z : Worker} {c : CallerId} {x : Caller} {e : Envelope}
  {key : String} {policy : Policy} {connector : Ledger.Connector} {reason : ExitReason}
  {told : List Event} {rest : List Envelope}

/-- What there is to be seen after a worker has left. -/
structure Departed (s : State) (y : Worker) (reason : ExitReason) (told : List Event)
    (rest : List Envelope) (u : State) : Prop where
  worker : ∃ z, u.workers.get? 0 = some z ∧ z.activity = .left reason ∧ z.identity = y.identity ∧
    z.mailbox = y.mailbox.close
  /-- After the exit hook the mailbox is closed, and what is left in it is handed back; nothing else
  is done by the worker. -/
  events : ∃ later, u.events = later ++
    (s.handbacks 0 rest ++ .closed 0 :: .hooked 0 reason :: (told ++ s.events)) ∧
    ∀ event ∈ later, event.handling? = none
  /-- All this is done once. -/
  parting : u.events.filter (fun event ↦ event.parting? = some 0) =
    s.handbacks 0 rest ++ [.closed 0, .hooked 0 reason]
  /-- No request that was left in the mailbox is ever accepted. -/
  unserved : ∀ e ∈ rest, .accepted e.caller 0 ∉ u.events
  /-- Whoever still waits for an envelope in the mailbox learns that it was handed back. -/
  rejected : ∀ e ∈ s.pending 0 rest, ∃ x, u.callers.get? e.caller = some x ∧ x.key = e.key ∧
    x.request = e.request ∧ x.Comes (.replied 0 .handedBack) .rejected
  /-- Whoever is suspended on the mailbox learns that it is closed. -/
  returned : ∀ c x, s.callers.get? c = some x → x.phase = .suspended 0 →
    ∃ x', u.callers.get? c = some x' ∧ x'.key = x.key ∧ x'.request = x.request ∧
      x'.Comes (.suspended 0) .closed
  /-- Whoever was told something before learns of it. -/
  heard : ∀ c r, .answered c 0 r ∈ told → ∃ x, u.callers.get? c = some x ∧
    x.Comes (.replied 0 (.answered r)) (.result r)
  /-- Once every task waits, every call is over. -/
  ended : u.step = none → ∀ c x, u.callers.get? c = some x → x.phase.isEnded = true

section Exiting

/-- What a worker says before it leaves is no part of its end. -/
theorem Parts.told_silent (parts : Parts s w y reason told rest) :
    ∀ event ∈ told, event.parting? = none := by
  cases parts with
  | called => exact fun _ none ↦ absurd none List.not_mem_nil
  | misrouted =>
    intro event inside
    obtain rfl := List.mem_singleton.mp inside
    rfl

/-- Only what a worker does is part of its end. -/
theorem parting_of_handling {event : Event} (silent : event.handling? = none) :
    event.parting? = none := by
  cases event <;> simp_all [Event.handling?, Event.parting?]

/-- A worker that leaves accepts nothing before. -/
theorem Parts.not_accepted (parts : Parts s w y reason told rest) : .accepted c w ∉ told := by
  cases parts with
  | called => exact List.not_mem_nil
  | misrouted => exact fun inside ↦ absurd (List.mem_singleton.mp inside) nofun

/-- What is handed back was in the mailbox. -/
theorem Parts.queued (parts : Parts s w y reason told rest) (inside : e ∈ rest) :
    e ∈ y.mailbox.queue := by
  cases parts with
  | called => exact inside
  | misrouted kept queue => exact queue ▸ List.mem_cons_of_mem _ inside

/-- What is handed back is handed back by the worker. -/
theorem parting_of_handbacks {event : Event} (inside : event ∈ s.handbacks w rest) :
    event.parting? = some w := by
  obtain ⟨e, -, rfl⟩ := List.mem_map.mp (List.mem_reverse.mp inside)
  rfl

/-- What a worker has accepted it accepted before it left. -/
theorem Parts.accepted_before {later before : List Event} (parts : Parts s w y reason told rest)
    (silent : ∀ event ∈ later, event.handling? = none)
    (accepted : .accepted c w ∈
      later ++ (s.handbacks w rest ++ .closed w :: .hooked w reason :: (told ++ before))) :
    .accepted c w ∈ before := by
  rcases List.mem_append.mp accepted with here | accepted
  · exact absurd (silent _ here) nofun
  rcases List.mem_append.mp accepted with here | accepted
  · exact absurd (parting_of_handbacks here) nofun
  rcases List.mem_cons.mp accepted with here | accepted
  · exact absurd here nofun
  rcases List.mem_cons.mp accepted with here | accepted
  · exact absurd here nofun
  exact (List.mem_append.mp accepted).resolve_left parts.not_accepted

/-- What there is to be seen of the end of a worker in all that is recorded. -/
theorem filter_parting {later before : List Event}
    (silent : ∀ event ∈ later, event.parting? ≠ some w)
    (quiet : ∀ event ∈ told, event.parting? ≠ some w)
    (whole : ∀ event ∈ before, event.parting? ≠ some w) :
    (later ++ (s.handbacks w rest ++ .closed w :: .hooked w reason :: (told ++ before))).filter
        (fun event ↦ event.parting? = some w) =
      s.handbacks w rest ++ [.closed w, .hooked w reason] := by
  have none {l : List Event} (other : ∀ event ∈ l, event.parting? ≠ some w) :
      l.filter (fun event ↦ event.parting? = some w) = [] :=
    List.filter_eq_nil_iff.mpr fun event inside ↦ by simpa using other event inside
  have all : (s.handbacks w rest).filter (fun event ↦ event.parting? = some w) =
      s.handbacks w rest :=
    List.filter_eq_self.mpr fun event inside ↦ decide_eq_true (parting_of_handbacks inside)
  have own (mark : Event) (l : List Event) (mine : mark.parting? = some w) :
      (mark :: l).filter (fun event ↦ event.parting? = some w) =
        mark :: l.filter fun event ↦ event.parting? = some w :=
    List.filter_cons_of_pos (decide_eq_true mine)
  rw [List.filter_append, List.filter_append, none silent, all, own _ _ rfl, own _ _ rfl,
    List.filter_append, none quiet, none whole]
  rfl

/-- Whatever happens after a worker on its own has left. -/
theorem Departs.departed (departs : Departs s t 0 y reason told rest)
    (h : Lone policy connector key s) (taken : s.step = some t) (solos : Solos t v) :
    Departed s y reason told rest v := by
  have single := h.single
  have live : y.activity.isOver = false := by rw [departs.idle]; rfl
  have lone : Lone policy connector key t := h.tail (.step taken)
  obtain ⟨idle, left⟩ := departs.left
  have after := lone.aftermath left rfl solos
  obtain ⟨later, grown, silent⟩ := after.events
  obtain ⟨z, there, activity, identity, mailbox⟩ := after.worker _ left
  rw [departs.events] at grown
  have comes {c : CallerId} {x : Caller} {phase : Phase} {ending : Ending}
      (known : t.callers.get? c = some x) (fated : Fated phase ending) (here : x.phase = phase) :
      ∃ x', v.callers.get? c = some x' ∧ x'.key = x.key ∧ x'.request = x.request ∧
        x'.Comes phase ending := by
    obtain ⟨x', known', key, request, comes⟩ := after.callers c x known
    exact ⟨x', known', key, request, comes phase ending fated (.inl here)⟩
  refine ⟨⟨z, there, activity, identity, mailbox⟩, ⟨later, grown, silent⟩, ?_, ?_, ?_, ?_, ?_, ?_⟩
  · rw [grown]
    refine filter_parting (fun event inside ↦ ?_) (fun event inside ↦ ?_)
      (single.whole y departs.found live)
    · rw [parting_of_handling (silent event inside)]
      exact nofun
    · rw [departs.parts.told_silent event inside]
      exact nofun
  · intro e inside accepted
    have before := departs.parts.accepted_before silent (grown ▸ accepted)
    obtain ⟨-, -, -, absent⟩ := h.served e.caller before
    exact absent y departs.found e (departs.parts.queued inside) rfl
  · intro e inside
    obtain ⟨x, -, key, request, back⟩ := departs.returned e inside
    obtain ⟨x', known, key', request', comes⟩ := comes back .rejected rfl
    exact ⟨x', known, key'.trans key, request'.trans request, comes⟩
  · intro c x known suspended
    exact comes (departs.others c x known (by simp [suspended])) .closed suspended
  · intro c r said
    obtain ⟨x, -, answered⟩ := departs.heard c r said
    obtain ⟨x', known, -, -, comes⟩ := comes answered (.answered r) rfl
    exact ⟨x', known, comes⟩
  · intro calm c x known
    exact Lone.ended (lone.trans solos) there (by rw [activity]; rfl) calm known

/-- What a caller does leaves alone what the workers do. -/
theorem Change.activity_of_caller (change : Change s (.caller c) t)
    (found : s.workers.get? w = some y) :
    ∃ z, t.workers.get? w = some z ∧ z.activity = y.activity := by
  have set {v : WorkerId} {worker next : Worker} (found' : s.workers.get? v = some worker)
      (same : next.activity = worker.activity) :
      ∃ z, (s.workers.set v next).get? w = some z ∧ z.activity = y.activity := by
    have kept := activity_set found' same w
    rw [found, Option.map_some] at kept
    exact Option.map_eq_some_iff.mp kept
  cases change with
  | spawn =>
    exact ⟨y, Table.get?_push_of_found found, rfl⟩
  | push offers found' => exact set found' rfl
  | suspend offers found' => exact set found' rfl
  | occupy known suspended found' => exact set found' rfl
  | withdraw =>
    rw [Table.get?_update, found]
    split
    next => exact ⟨_, rfl, rfl⟩
    next => exact ⟨y, rfl, rfl⟩
  | _ => exact ⟨y, found, rfl⟩

/-- Whatever a caller does leaves alone what the workers do. -/
theorem Changes.activity_of_caller (changes : Changes (.caller c) s t)
    (found : s.workers.get? w = some y) :
    ∃ z, t.workers.get? w = some z ∧ z.activity = y.activity := by
  induction changes with
  | refl => exact ⟨y, found, rfl⟩
  | tail _ change ih =>
    obtain ⟨x, there, same⟩ := ih
    obtain ⟨z, there', same'⟩ := change.activity_of_caller there
    exact ⟨z, there', same'.trans same⟩

/-- A worker on its own that leaves in a step departs. -/
theorem Lone.departs (h : Lone policy connector key s) (found : s.workers.get? 0 = some y)
    (live : y.activity.isOver = false) (taken : s.step = some t)
    (there : t.workers.get? 0 = some z) (left : z.activity = .left reason) :
    ∃ told rest, Departs s t 0 y reason told rest := by
  have stays {p : Prop} (same : t.workers = s.workers) : p := by
    rw [same] at there
    obtain rfl := Option.some.inj (found.symm.trans there)
    exact absurd (left ▸ live) (by simp [Activity.isOver])
  cases running : s.running with
  | none =>
    obtain ⟨⟨_, _, _, rfl⟩, -⟩ := step_chooses running taken
    exact stays rfl
  | some τ =>
    have result := taken
    unfold step at result
    rw [running] at result
    cases τ with
    | worker w =>
      obtain rfl := Option.some.inj result
      by_cases own : w = 0
      · subst own
        exact stepWorker_departs h.single.owned found live there left
      · have missing : s.workers.get? w = none := by
          cases here : s.workers.get? w with
          | none => rfl
          | some x => exact absurd (h.single.only w x here).1 own
        refine stays ?_
        rw [stepWorker, missing]
        rfl
    | caller c =>
      obtain rfl := Option.some.inj result
      have changes := (stepCaller_stirs running).changes
      obtain ⟨z', there', activity⟩ := changes.activity_of_caller (y := y) found
      obtain rfl := Option.some.inj (there.symm.trans there')
      rw [← activity, left] at live
      exact absurd live (by simp [Activity.isOver])

/-- A worker on its own that has left has departed in some step. -/
theorem Lone.has_departed (h : Lone policy connector key u) (found : u.workers.get? 0 = some z)
    (left : z.activity = .left reason) :
    ∃ s t y told rest, Lone policy connector key s ∧ s.step = some t ∧
      Departs s t 0 y reason told rest ∧ Solos t u := by
  induction h generalizing z with
  | refl =>
    have workers := congrArg State.workers (bare_spawn (start policy connector) key)
    have workers : (lone policy connector key).workers = _ := workers
    have first : 0 = (start policy connector).workers.size := rfl
    rw [workers, Table.get?_push, if_pos first] at found
    obtain rfl := Option.some.inj found
    exact absurd left (by simp)
  | @tail s u before solo ih =>
    have h : Lone policy connector key s := before
    obtain ⟨y, there⟩ := h.single.present
    cases live : y.activity.isOver with
    | true =>
      obtain ⟨z', found', activity, -⟩ := (h.aftermath there live (.tail .refl solo)).worker y there
      obtain rfl := Option.some.inj (found.symm.trans found')
      obtain ⟨s₀, t₀, y₀, told, rest, lone, taken, departs, solos⟩ :=
        ih there (activity.symm.trans left)
      exact ⟨s₀, t₀, y₀, told, rest, lone, taken, departs, solos.tail solo⟩
    | false =>
      rcases solo.step_or_touch with taken | touch
      · obtain ⟨told, rest, departs⟩ := h.departs there live taken found left
        exact ⟨s, u, y, told, rest, h, taken, departs, .refl⟩
      · obtain ⟨y', there', -, activity, -⟩ := touch.of_worker (z := z) found
        obtain rfl := Option.some.inj (there.symm.trans there')
        rw [← activity, left] at live
        exact absurd live (by simp [Activity.isOver])

end Exiting

section Expelling

/-- What a worker does to whose turn it is when the foremost envelope in its mailbox is meant for
another: it leaves, whatever its identity is. It dies if the clock cannot name its next idle
deadline. -/
inductive Expels (s t : State) (y : Worker) (e : Envelope) (rest : List Envelope) : Prop
  | leaves
    (departs : Departs s t 0 y .aborted
      [.answered e.caller 0 (.error (.violation (.misrouted e.key y.key)))] rest)
    (blind : ∀ i, (s.identify 0 i).step = some (t.identify 0 i))
  | dies {z : Worker} (far : s.canReach s.policy.idleTimeout = false)
    (there : t.workers.get? 0 = some z) (died : z.activity = .died)
    (events : t.events = .closed 0 :: .died 0 :: s.events)

/-- What a worker does with an envelope that is meant for another. -/
theorem Lone.expels (h : Lone policy connector key s) (running : s.running = some (.worker 0))
    (found : s.workers.get? 0 = some y) (idle : y.activity = .idle) (kept : y.cancelled = false)
    (queue : y.mailbox.queue = e :: rest) (waits : s.awaits e.caller 0 = true)
    (foreign : e.key ≠ key) : ∃ t, s.step = some t ∧ Expels s t y e rest := by
  have own : y.key = key := (h.single.only 0 y found).2
  have popped : y.mailbox.pop? = some (e, { y.mailbox with queue := rest }) := by
    rw [Mailbox.pop?, queue]
  have steps : s.step = some (s.stepWorker 0) := by
    rw [step, running]
  refine ⟨_, steps, ?_⟩
  cases near : s.canReach s.policy.idleTimeout with
  | true =>
    have goes := stepWorker_misrouted found idle kept popped waits near (own ▸ foreign)
    refine .leaves ?_ fun i ↦ ?_
    · rw [goes]
      exact departs_misrouted h.single.owned found idle kept popped waits (own ▸ foreign)
    · have running : (s.identify 0 i).running = some (.worker 0) := running
      rw [← identify_stepWorker i found idle kept popped waits near (own ▸ foreign), step, running]
  | false =>
    have lone : Lone policy connector key (s.stepWorker 0) := h.tail (.step steps)
    obtain ⟨z, there⟩ := lone.single.present
    rw [stepWorker_of_pop found idle kept popped, take_far found waits near] at there ⊢
    refine .dies near there (died_die there) ?_
    rw [events_die, events_taken found]

end Expelling

/-- A worker on its own runs its exit hook when it leaves and at no other time. If it has left, it
did so in one step: it ran the hook, closed its mailbox and handed back what was left in it. Whatever
has happened since, this is what is seen of it, and once the tasks are let run every call comes to
its end. An envelope that is meant for another makes it leave. -/
theorem Lone.exits_in_order (h : Lone policy connector key u) :
    (∀ reason, .hooked 0 reason ∈ u.events →
      ∃ z, u.workers.get? 0 = some z ∧ z.activity = .left reason) ∧
    (∀ z reason, u.workers.get? 0 = some z → z.activity = .left reason →
      ∃ s t y told rest, Lone policy connector key s ∧ s.step = some t ∧
        Departs s t 0 y reason told rest ∧ Solos t u ∧
        (∀ v, Solos t v → Departed s y reason told rest v) ∧
        ∃ fuel, Solos t (runReady fuel u) ∧ (runReady fuel u).step = none) ∧
    ∀ y e rest, u.running = some (.worker 0) → u.workers.get? 0 = some y → y.activity = .idle →
      y.cancelled = false → y.mailbox.queue = e :: rest → u.awaits e.caller 0 = true →
      e.key ≠ key → ∃ t, u.step = some t ∧ Expels u t y e rest := by
  refine ⟨h.single.hooked, fun z reason found left ↦ ?_,
    fun y e rest running found idle kept queue waits foreign ↦
      h.expels running found idle kept queue waits foreign⟩
  obtain ⟨s, t, y, told, rest, before, taken, departs, solos⟩ := h.has_departed found left
  obtain ⟨fuel, calm⟩ := h.calms found (by rw [left]; rfl)
  exact ⟨s, t, y, told, rest, before, taken, departs, solos,
    fun v after ↦ departs.departed before taken after, fuel,
    solos.trans (solos_runReady fuel u), calm⟩

/-- Three callers address the worker for the treasury, whose mailbox has room for two. The first
asks for the payroll. -/
def misroutedTrial (steps : Nat) : State :=
  runReady steps
    ([("payroll", Query.address), ("treasury", .nonce), ("treasury", .status)].foldl
      (fun s (key, query) ↦ (s.spawnCall { key, request := .query query, direct := some 0 }).2)
      (lone { queueCapacity := 2 } trialConnector "treasury"))

theorem lone_misroutedTrial (steps : Nat) :
    Lone { queueCapacity := 2 } trialConnector "treasury" (misroutedTrial steps) := by
  refine Relation.ReflTransGen.trans ?_ (solos_runReady steps _)
  exact ((Relation.ReflTransGen.refl.tail (.call _ _ _)).tail (.call _ _ _)).tail (.call _ _ _)

/-- When the worker takes the first envelope it leaves: the first caller is refused, the second gets
its envelope back, and the third, who is suspended, finds the mailbox closed. -/
theorem exits_in_order_misrouted :
    (∃ t y e rest, (misroutedTrial 15).step = some t ∧ Expels (misroutedTrial 15) t y e rest) ∧
    (∃ s t y told rest, Lone { queueCapacity := 2 } trialConnector "treasury" s ∧
      s.step = some t ∧ Departs s t 0 y .aborted told rest ∧
      Departed s y .aborted told rest (misroutedTrial 22)) ∧
    (List.range 3).map (misroutedTrial 22).ending? =
      [some (.result (.error (.violation (.misrouted "payroll" "treasury")))), some .rejected,
        some .closed] := by
  refine ⟨?_, ?_, rfl⟩
  · obtain ⟨-, -, expels⟩ := (lone_misroutedTrial 15).exits_in_order
    obtain ⟨t, taken, gone⟩ := expels _ ⟨"payroll", .query .address, 0⟩
      [⟨"treasury", .query .nonce, 1⟩] rfl rfl rfl rfl rfl rfl (by decide)
    exact ⟨t, _, _, _, taken, gone⟩
  · obtain ⟨-, exits, -⟩ := (lone_misroutedTrial 22).exits_in_order
    obtain ⟨s, t, y, told, rest, before, taken, departs, solos, seen, -⟩ := exits _ .aborted rfl rfl
    exact ⟨s, t, y, told, rest, before, taken, departs, seen _ solos⟩

end Signatory.Service.State
