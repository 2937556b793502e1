import Signatory.Proofs.Service.Traffic

/-!
# In turn

Callers whose calls run on their own and begin while every task waits come to their workers in the
order in which they were called, as long as no worker turns them away. `Orderly` says what has to
hold of the schedule, the mailboxes and the limits for that. Callers that have been in the
foreground, which run before all others, are left out; they are given as `front`.
-/

namespace Signatory.Service.State

variable {front : List CallerId} {s t u : State} {τ υ σ : Task} {w v : WorkerId} {y z : Worker}
  {b c d : CallerId} {x old : Caller}

/-- The tasks that run or are ready, in the order in which they run. -/
def schedule (s : State) : List Task :=
  s.running.toList ++ s.ready

/-- A caller that has not been offered to any worker. -/
def Early (s : State) (c : CallerId) : Prop :=
  ∃ x, s.callers.get? c = some x ∧ (x.phase = .fresh ∨ x.phase = .seeking ∧ x.tries = 3)

/-- A caller that has not been called yet. -/
def Fresh (s : State) (c : CallerId) : Prop :=
  ∃ x, s.callers.get? c = some x ∧ x.phase = .fresh

/-- A caller whose time is over. -/
def Due (s : State) (c : CallerId) : Prop :=
  ∃ x l, s.callers.get? c = some x ∧ x.limit = some l ∧ l.time ≤ s.now

/-- Whether a caller keeps its turn: its call runs on its own, has not been dropped, and was not
turned away or handed back. -/
def keepsTurn (s : State) (front : List CallerId) (c : CallerId) : Bool :=
  decide (c ∉ front) &&
    (s.callers.get? c).any fun x ↦ x.direct.isNone && x.tries == 3 && !x.dropped

/-- The callers who have a worker accept their requests or wait for it, the earliest first. -/
def line (s : State) (w : WorkerId) : List CallerId :=
  s.acceptances w ++ ((s.workers.get? w).map (·.mailbox.callers)).getD []

/-- A caller that keeps its turn. -/
theorem keepsTurn_iff : s.keepsTurn front c = true ↔
    c ∉ front ∧ ∃ x, s.callers.get? c = some x ∧ x.direct = none ∧ x.tries = 3 ∧
      x.dropped = false := by
  unfold keepsTurn
  cases s.callers.get? c with
  | none => simp
  | some x => simp [and_assoc]

/-- What the schedule, the mailboxes and the limits are like if everyone keeps their turn. -/
structure Orderly (front : List CallerId) (s : State) : Prop where
  owned : Owned s.workers s.callers
  sound : ∀ {w y}, s.workers.get? w = some y → y.mailbox.Sound
  tries : ∀ {c x}, s.callers.get? c = some x → x.tries ≤ 3
  once : s.schedule.Nodup
  foreground : ∀ {c}, s.foreground = some c → c ∈ front ∧ Task.caller c ∉ s.ready
  known : ∀ {c}, c ∈ front → c < s.callers.size
  real : ∀ {c}, Task.caller c ∈ s.schedule → c < s.callers.size
  /-- Only the caller that runs looks for a worker. -/
  seeking : ∀ {c x}, s.callers.get? c = some x → x.phase = .seeking → s.running = some (.caller c)
  /-- Whoever has a place reserved will put an envelope there. -/
  placed : ∀ {w y c}, s.workers.get? w = some y → c ∈ y.mailbox.reserved →
    s.running = some (.caller c) ∨ s.Called (.caller c)
  /-- A call that runs on its own begins in its turn. -/
  fresh : ∀ {c}, c ∉ front → s.Fresh c → Task.caller c ∈ s.schedule
  queued : ∀ {c d}, c < d → c ∉ front → d ∉ front → s.Fresh c → s.Fresh d →
    [Task.caller c, .caller d].Sublist s.schedule
  later : ∀ {c d}, c < d → d < s.callers.size → c ∉ front → d ∉ front → s.Early c → s.Fresh d
  /-- No place is reserved, and no worker runs but to leave, before all calls have begun. -/
  calm : ∀ {c}, c ∉ front → s.Early c →
    ∀ {w y}, s.workers.get? w = some y → y.mailbox.reserved = []
  cancelled : ∀ {w c}, c ∉ front → s.Fresh c → [Task.worker w, .caller c].Sublist s.schedule →
    ∃ y, s.workers.get? w = some y ∧ y.cancelled = true
  begun : ∀ {w c}, c ∈ s.acceptances w → c < s.callers.size ∧ ¬ s.Early c
  line : ∀ w, ((s.line w).filter (s.keepsTurn front)).Pairwise (· < ·)
  /-- A caller that could go on before another goes on first. -/
  turns : ∀ {w y b c}, s.workers.get? w = some y → b < c → s.keepsTurn front b →
    s.keepsTurn front c → b ∈ y.mailbox.lined → c ∈ y.mailbox.lined →
    Task.caller c ∈ s.ready ∨ c ∈ y.mailbox.reserved →
      [Task.caller b, .caller c].Sublist s.schedule ∧ (b ∈ y.mailbox.reserved ∨ s.Due b)
  /-- Whoever is called first gives up first. -/
  limits : ∀ {w y b c x l}, s.workers.get? w = some y → b < c → s.keepsTurn front b →
    s.keepsTurn front c → b ∈ y.mailbox.lined → c ∈ y.mailbox.lined →
    s.callers.get? c = some x → x.limit = some l →
      ∃ x' l', s.callers.get? b = some x' ∧ x'.limit = some l' ∧ l'.time ≤ l.time ∧
        l'.ticket < l.ticket
  limited : ∀ {w y c x limit}, s.workers.get? w = some y → c ∈ y.mailbox.lined →
    s.keepsTurn front c → s.running ≠ some (.caller c) → s.callers.get? c = some x →
    s.policy.requestTimeout = some limit → ∃ l, x.limit = some l
  tickets : ∀ {c x l}, s.callers.get? c = some x → x.limit = some l →
    l.ticket < s.tickets ∧ ∃ limit, s.policy.requestTimeout = some limit ∧ l.time ≤ s.after limit
  unlimited : ∀ {c x}, s.Early c → s.callers.get? c = some x → x.limit = none
  due : ∀ {w y c}, s.workers.get? w = some y → c ∈ y.mailbox.lined → s.keepsTurn front c →
    s.Due c → Task.caller c ∈ s.schedule

section Places

/-- Who is in line is suspended, and the mailbox is open. -/
theorem suspended_of_lined (h : Owned s.workers s.callers) (found : s.workers.get? w = some y)
    (inside : c ∈ y.mailbox.lined) :
    y.mailbox.closed = false ∧ ∃ x, s.callers.get? c = some x ∧ x.phase = .suspended w := by
  have fits := (h.fits (c := c) found).lined
  have some_place := List.count_pos_iff.mpr inside
  rw [fits] at some_place
  split at some_place
  next => exact absurd some_place (Nat.lt_irrefl 0)
  next opened =>
    refine ⟨by simpa using opened, ?_⟩
    unfold phase? at some_place
    cases known : s.callers.get? c with
    | none => simp [known, bid] at some_place
    | some x =>
      refine ⟨x, rfl, ?_⟩
      rw [known, Option.map_some] at some_place
      unfold bid at some_place
      split at some_place
      next v phase =>
        split at some_place
        next same => rw [← same, Option.some.inj phase]
        next => exact absurd some_place (Nat.lt_irrefl 0)
      next => exact absurd some_place (Nat.lt_irrefl 0)

/-- Who is suspended on an open mailbox is in its line. -/
theorem lined_of_suspended (h : Owned s.workers s.callers) (known : s.callers.get? c = some x)
    (suspended : x.phase = .suspended w) (found : s.workers.get? w = some y)
    (opened : y.mailbox.closed = false) : c ∈ y.mailbox.lined := by
  have lined := (h.fits (c := c) found).lined
  rw [opened, if_neg Bool.false_ne_true, phase?_of_found known, suspended, bid, if_pos rfl] at lined
  exact List.count_pos_iff.mp (lined ▸ Nat.zero_lt_one)

/-- Nobody is in line twice. -/
theorem lined_once (h : Owned s.workers s.callers) (found : s.workers.get? w = some y) :
    y.mailbox.lined.Nodup := by
  apply List.nodup_iff_count.mpr
  intro c
  rw [(h.fits found).lined]
  split
  next => exact Nat.zero_le 1
  next =>
    unfold bid
    split
    next => split <;> omega
    next => exact Nat.zero_le 1

/-- Who waits for the reply of a worker has an envelope there. -/
theorem held_of_awaiting (h : Owned s.workers s.callers) (known : s.callers.get? c = some x)
    (awaiting : x.phase = .awaiting w) (found : s.workers.get? w = some y) : c ∈ y.held := by
  have least := (h.fits (c := c) found).least
  rw [phase?_of_found known, awaiting, claim, if_pos rfl] at least
  exact List.count_pos_iff.mp least

/-- Whose envelope a worker has, waits for the reply or has left. -/
theorem phase_of_held (h : Owned s.workers s.callers) (found : s.workers.get? w = some y)
    (inside : c ∈ y.held) : ∃ x, s.callers.get? c = some x ∧
      (x.phase = .awaiting w ∨ x.phase.isEnded = true) := by
  have most := (h.fits (c := c) found).most
  have some_envelope := List.count_pos_iff.mpr inside
  unfold phase? at most
  cases known : s.callers.get? c with
  | none =>
    rw [known] at most
    simp only [Option.map_none, claim, remains] at most
    omega
  | some x =>
    refine ⟨x, rfl, ?_⟩
    rw [known, Option.map_some] at most
    cases ended : x.phase.isEnded with
    | true => exact .inr rfl
    | false =>
      left
      rw [remains_of_live ended] at most
      have one : claim w (some x.phase) = 1 := by
        rcases claim_eq w (some x.phase) with none | one
        · omega
        · exact one
      exact Option.some.inj (eq_awaiting one)

/-- The envelopes in a mailbox are among those that the worker has. -/
theorem queue_subset_held {c : CallerId} (inside : c ∈ y.mailbox.queue.map (·.caller)) :
    c ∈ y.held := by
  obtain ⟨e, queued, rfl⟩ := List.mem_map.mp inside
  exact Worker.held_of_queue queued

end Places

section Moving

/-- The time does not change while tasks run. -/
theorem Change.now (change : Change s τ t) : t.now = s.now := by
  cases change <;> rfl

/-- A caller that has not been called yet has not moved. -/
theorem Change.fresh (change : Change s τ t) (fresh : t.Fresh c) : s.Fresh c := by
  obtain ⟨x, found, phase⟩ := fresh
  rcases change.caller found with same | ⟨old, found', moves⟩
  · exact ⟨x, same, phase⟩
  · refine ⟨old, found', ?_⟩
    cases moves with
    | limit => exact phase
    | _ => exact Phase.noConfusion phase

/-- A caller that has not been offered to any worker was not before. -/
theorem Change.early (tries : ∀ {c x}, s.callers.get? c = some x → x.tries ≤ 3)
    (change : Change s τ t) (early : t.Early c) : s.Early c := by
  obtain ⟨x, found, phase⟩ := early
  rcases change.caller found with same | ⟨old, found', moves⟩
  · exact ⟨x, same, phase⟩
  · refine ⟨old, found', ?_⟩
    cases moves with
    | begin fresh => exact .inl fresh
    | retry =>
      have most := tries found'
      rcases phase with fresh | ⟨-, full⟩
      · exact Phase.noConfusion fresh
      · have full : old.tries - 1 = 3 := full
        omega
    | limit => exact phase
    | _ =>
      rcases phase with fresh | ⟨seeking, -⟩
      · exact Phase.noConfusion fresh
      · exact Phase.noConfusion seeking

/-- Nobody gets a turn back. -/
theorem Change.keepsTurn (tries : ∀ {c x}, s.callers.get? c = some x → x.tries ≤ 3)
    (change : Change s τ t) (keeps : t.keepsTurn front c = true) :
    s.keepsTurn front c = true := by
  obtain ⟨apart, x, found, direct, full, dropped⟩ := keepsTurn_iff.mp keeps
  apply keepsTurn_iff.mpr
  refine ⟨apart, ?_⟩
  rcases change.caller found with same | ⟨old, found', moves⟩
  · exact ⟨x, same, direct, full, dropped⟩
  · refine ⟨old, found', ?_⟩
    cases moves with
    | retry =>
      have most := tries found'
      have full : old.tries - 1 = 3 := full
      omega
    | _ => exact ⟨direct, full, dropped⟩

/-- A caller that is suspended before and after it moves has done nothing but learn when it will
give up. -/
theorem Change.lingers (change : Change s (.caller c) t) (found : s.callers.get? c = some old)
    (before : old.phase = .suspended w) (found' : t.callers.get? c = some x)
    (after : x.phase = .suspended v) :
    t.workers = s.workers ∧ (x = old ∨ ∃ alarm, x = { old with limit := some alarm } ∧
      s.now < alarm.time ∧ (old.limit = some alarm ∨ old.limit = none ∧
        ∃ limit, s.policy.requestTimeout = some limit ∧ alarm.time = s.after limit)) := by
  have elsewhere {y : Caller} {p : Phase} (known : s.callers.get? c = some y) (phase : y.phase = p)
      (other : p ≠ .suspended w) : False := by
    obtain rfl := Option.some.inj (found.symm.trans known)
    exact other (phase.symm.trans before)
  have moved {y next : Caller} (known : s.callers.get? c = some y)
      (here : (s.callers.set c next).get? c = some x) (other : ∀ v, next.phase ≠ .suspended v) :
      False := by
    rw [Table.get?_set_self known] at here
    obtain rfl := Option.some.inj here
    exact other v after
  cases change with
  | rest => exact ⟨rfl, .inl (Option.some.inj (found'.symm.trans found))⟩
  | @limit c y w limit alarm known waiting direct limited early due =>
    refine ⟨rfl, .inr ⟨alarm, ?_, early, ?_⟩⟩
    · have here : (s.callers.set c { y with limit := some alarm }).get? c = some x := found'
      rw [Table.get?_set_self known] at here
      obtain rfl := Option.some.inj (found.symm.trans known)
      exact (Option.some.inj here).symm
    · obtain rfl := Option.some.inj (found.symm.trans known)
      exact due.imp id fun ⟨unset, time⟩ ↦ ⟨unset, limit, limited, time⟩
  | begin known fresh => exact (elsewhere known fresh Phase.noConfusion).elim
  | beginDirect known fresh => exact (elsewhere known fresh Phase.noConfusion).elim
  | spawn known seeking => exact (elsewhere known seeking Phase.noConfusion).elim
  | push offers => exact (elsewhere offers.found offers.seeking Phase.noConfusion).elim
  | suspend offers => exact (elsewhere offers.found offers.seeking Phase.noConfusion).elim
  | refuse offers => exact (elsewhere offers.found offers.seeking Phase.noConfusion).elim
  | refuseDirect offers => exact (elsewhere offers.found offers.seeking Phase.noConfusion).elim
  | retry known replied => exact (elsewhere known replied Phase.noConfusion).elim
  | notFound known seeking => exact (elsewhere known seeking Phase.noConfusion).elim
  | lose known replied => exact (elsewhere known replied Phase.noConfusion).elim
  | occupy known => exact (moved known found' fun _ ↦ Phase.noConfusion).elim
  | turnAway known => exact (moved known found' fun _ ↦ Phase.noConfusion).elim
  | conclude known => exact (moved known found' fun _ ↦ Phase.noConfusion).elim
  | giveUp known => exact (moved known found' fun _ ↦ Phase.noConfusion).elim
  | withdraw known => exact (moved known found' fun _ ↦ Phase.noConfusion).elim

/-- A caller that waits for a place did so before, or it has just come. -/
theorem Change.suspended (change : Change s τ t) (found : t.callers.get? c = some x)
    (after : x.phase = .suspended v) : ∃ old, s.callers.get? c = some old ∧
      (old.phase = .suspended v ∨ old.phase = .seeking ∧ τ = .caller c) := by
  by_cases own : τ = .caller c
  · rcases change.caller found with same | ⟨old, there, moves⟩
    · exact ⟨x, same, .inl after⟩
    · refine ⟨old, there, ?_⟩
      cases moves with
      | line offers => exact .inr ⟨offers.seeking, own⟩
      | limit => exact .inl after
      | _ => exact Phase.noConfusion after
  · obtain ⟨old, there, stays⟩ := change.stays own found
    refine ⟨old, there, .inl ?_⟩
    rcases stays with rfl | ⟨w, r, -, rfl⟩
    · exact after
    · exact Phase.noConfusion after

/-- A caller that has just come to a mailbox has the limit that it had. -/
theorem Change.joined (change : Change s τ t) (found : s.callers.get? c = some old)
    (before : old.phase = .seeking) (found' : t.callers.get? c = some x)
    (after : x.phase = .suspended v) : x.limit = old.limit := by
  rcases change.caller found' with same | ⟨y, there, moves⟩
  · obtain rfl := Option.some.inj (found.symm.trans same)
    rfl
  · obtain rfl := Option.some.inj (found.symm.trans there)
    cases moves with
    | limit waiting =>
      rcases waiting with suspended | awaiting
      · exact Phase.noConfusion (before.symm.trans suspended)
      · exact Phase.noConfusion (before.symm.trans awaiting)
    | _ => rfl

/-- A worker accepts what is in its mailbox, if the caller waits for it. -/
theorem Change.acceptances (change : Change s τ t) (w : WorkerId) :
    t.acceptances w = s.acceptances w ∨ ∃ y e, s.workers.get? w = some y ∧
      e ∈ y.mailbox.queue ∧ s.awaits e.caller w = true ∧
      t.acceptances w = s.acceptances w ++ [e.caller] := by
  have accepts {v : WorkerId} {y : Worker} {e : Envelope} {rest : Mailbox} {deadline : Alarm}
      (taken : Accepts s v y e rest deadline)
      (one : t.acceptances w = s.acceptances w ++ if v = w then [e.caller] else []) :
      t.acceptances w = s.acceptances w ∨ ∃ y e, s.workers.get? w = some y ∧
        e ∈ y.mailbox.queue ∧ s.awaits e.caller w = true ∧
        t.acceptances w = s.acceptances w ++ [e.caller] := by
    split at one
    next same =>
      refine .inr ⟨y, e, same ▸ taken.found, ?_, same ▸ taken.waits, one⟩
      rw [Mailbox.queue_of_pop? taken.popped]
      exact List.mem_cons_self
    next => exact .inl (one.trans (List.append_nil _))
  cases change with
  | leave =>
    left
    rw [State.acceptances, events, List.map_append, acceptances_leave]
    rfl
  | connect taken => exact accepts taken acceptances_accepted
  | lookup taken => exact accepts taken acceptances_accepted
  | serve taken => exact accepts taken acceptances_accepted
  | _ => exact .inl rfl

end Moving

section Stirring

/-- A task that runs is not behind any other. -/
theorem not_before_head {l : List Task} (once : (υ :: l).Nodup) : ¬ [τ, υ].Sublist (υ :: l) := by
  intro before
  have apart := (List.nodup_cons.mp once).1
  rcases List.sublist_cons_iff.mp before with later | ⟨rest, same, later⟩
  · exact apart (later.subset (List.mem_cons_of_mem _ List.mem_cons_self))
  · obtain ⟨-, rfl⟩ := List.cons.inj same
    exact apart (later.subset List.mem_cons_self)

/-- Who is before another that is no later has its place there. -/
theorem before_of_append {α : Type} {a b : α} {l r : List α} (before : [a, b].Sublist (l ++ r))
    (early : b ∉ r) : [a, b].Sublist l := by
  obtain ⟨first, second, pair, left, right⟩ := List.sublist_append_iff.mp before
  cases second with
  | nil => rwa [pair, List.append_nil]
  | cons head rest =>
    have last : b ∈ head :: rest := by
      cases first with
      | nil =>
        rw [List.nil_append] at pair
        rw [← pair]
        exact List.mem_cons_of_mem _ List.mem_cons_self
      | cons other others =>
        obtain ⟨-, tail⟩ := List.cons.inj pair
        cases others with
        | nil => exact (List.cons.inj tail).1 ▸ List.mem_cons_self
        | cons => simp at tail
    exact absurd (right.subset last) early

variable (stir : Stir s τ t)

include stir

/-- The task that runs comes first. -/
theorem Stir.schedule_eq : s.schedule = τ :: s.ready := by
  rw [schedule, stir.running]
  rfl

/-- The task that runs goes on or rests. -/
theorem Stir.goes : t.running = some τ ∨ t.running = none := by
  rcases stir.wakes.running with same | rests
  · exact .inl (same.trans stir.running)
  · exact .inr rests

/-- Whoever is in the schedule stays there, but for a task that rests. -/
theorem Stir.mem (here : υ ∈ s.schedule) (goes : υ = τ → t.running ≠ none) : υ ∈ t.schedule := by
  obtain ⟨woken, ready, -⟩ := stir.wakes.ready
  rw [stir.schedule_eq] at here
  rw [schedule, ready]
  rcases List.mem_cons.mp here with rfl | later
  · rcases stir.goes with same | rests
    · rw [same]
      exact List.mem_cons_self
    · exact absurd rests (goes rfl)
  · exact List.mem_append_right _ (List.mem_append_left _ later)

/-- Whoever is before another in the schedule stays so, but for a task that rests. -/
theorem Stir.before (here : [υ, σ].Sublist s.schedule) (goes : υ = τ → t.running ≠ none) :
    [υ, σ].Sublist t.schedule := by
  obtain ⟨woken, ready, -⟩ := stir.wakes.ready
  rw [stir.schedule_eq] at here
  rw [schedule, ready, ← List.append_assoc]
  refine List.Sublist.trans ?_ (List.sublist_append_left _ woken)
  rcases stir.goes with same | rests
  · rw [same]
    exact here
  · rw [rests]
    rcases List.sublist_cons_iff.mp here with later | ⟨rest, same, -⟩
    · exact later
    · exact absurd rests (goes (List.cons.inj same).1)

/-- Whoever is woken is behind all that are in the schedule. -/
theorem Stir.behind (here : υ ∈ s.schedule) (goes : υ = τ → t.running ≠ none)
    (ready : σ ∈ t.ready) (idle : σ ∉ s.ready) : [υ, σ].Sublist t.schedule := by
  obtain ⟨woken, same, -⟩ := stir.wakes.ready
  rw [same] at ready
  have new : σ ∈ woken := (List.mem_append.mp ready).resolve_left idle
  rw [schedule, same, ← List.append_assoc]
  refine List.Sublist.append (List.singleton_sublist.mpr ?_) (List.singleton_sublist.mpr new)
  rw [stir.schedule_eq] at here
  rcases List.mem_cons.mp here with rfl | later
  · rcases stir.goes with runs | rests
    · rw [runs]
      exact List.mem_cons_self
    · exact absurd rests (goes rfl)
  · exact List.mem_append_right _ later

/-- Whoever is in the schedule was there, or is woken. -/
theorem Stir.scheduled (here : υ ∈ t.schedule) : υ ∈ s.schedule ∨ υ ∈ t.ready ∧ υ ∉ s.ready := by
  rw [schedule, List.mem_append] at here
  rw [stir.schedule_eq]
  rcases here with runs | ready
  · rcases stir.goes with same | rests
    · rw [same] at runs
      obtain rfl := List.mem_singleton.mp runs
      exact .inl List.mem_cons_self
    · rw [rests] at runs
      exact absurd runs List.not_mem_nil
  · by_cases before : υ ∈ s.ready
    · exact .inl (List.mem_cons_of_mem _ before)
    · exact .inr ⟨ready, before⟩

/-- The tasks that are woken were not ready, and there is a reason for each. -/
theorem Stir.woken (ready : υ ∈ t.ready) (idle : υ ∉ s.ready) :
    s.foreground.map .caller ≠ some υ ∧ (υ ≠ τ ∨ t.running = none) ∧
      ∀ c, υ = .caller c → Rouses s t c := by
  obtain ⟨woken, same, -, causes⟩ := stir.wakes.ready
  rw [same] at ready
  exact (causes υ ((List.mem_append.mp ready).resolve_left idle)).2

/-- No task is in the schedule twice. -/
theorem Stir.once (once : s.schedule.Nodup) : t.schedule.Nodup := by
  obtain ⟨woken, ready, distinct, causes⟩ := stir.wakes.ready
  rw [stir.schedule_eq] at once
  have ⟨apart, rest⟩ := List.nodup_cons.mp once
  have both : (s.ready ++ woken).Nodup := by
    refine List.nodup_append.mpr ⟨rest, distinct, fun υ old σ new same ↦ ?_⟩
    exact (causes σ new).1 (same ▸ old)
  rw [schedule, ready]
  rcases stir.goes with same | rests
  · rw [same]
    change (τ :: (s.ready ++ woken)).Nodup
    refine List.nodup_cons.mpr ⟨fun inside ↦ ?_, both⟩
    rcases List.mem_append.mp inside with old | new
    · exact apart old
    · rcases (causes τ new).2.2.1 with other | rests
      · exact other rfl
      · exact absurd (same.symm.trans rests) (by simp)
  · rw [rests]
    exact both

/-- Other callers stay as they are, or have a reply. -/
theorem Stir.stays (other : τ ≠ .caller c) (found : t.callers.get? c = some x) :
    ∃ old, s.callers.get? c = some old ∧ Stays old x :=
  stir.change.stays other found

/-- Who is in line was so before, unless it has just come. -/
theorem Stir.lined (found : t.workers.get? w = some z) (inside : c ∈ z.mailbox.lined) :
    (∃ y, s.workers.get? w = some y ∧ c ∈ y.mailbox.lined) ∨
      τ = .caller c ∧ ∃ old, Offers s.bare c old w := by
  cases stir.change.trades found with
  | new missing capacity mailbox =>
    rw [mailbox] at inside
    exact absurd inside List.not_mem_nil
  | old found' delivers =>
    rcases delivers.lined inside with before | new
    · exact .inl ⟨_, found', before⟩
    · exact .inr new

end Stirring

end Signatory.Service.State
