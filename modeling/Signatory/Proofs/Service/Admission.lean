import Signatory.Proofs.Service.Order

/-!
# What the user does

While no task runs the user may act. That leaves everyone their turn: calls that begin are ready one
after the other, and nobody else is woken but workers that are to leave and callers that have been
dropped.
-/

namespace Signatory.Service.State

variable {front front' : List CallerId} {s t : State} {τ : Task} {w : WorkerId} {y z : Worker}
  {b c d : CallerId} {x old : Caller} {l : Alarm}

/-- No task runs, no place is reserved, and no worker will run but to leave. -/
structure Quiet (s : State) : Prop where
  rests : s.running = none
  placeless : ∀ {w y}, s.workers.get? w = some y → y.mailbox.reserved = []
  told : ∀ {w}, Task.worker w ∈ s.ready → ∃ y, s.workers.get? w = some y ∧ y.cancelled = true

/-- Whom the user wakes: workers that are to leave, and callers that are new or dropped. -/
def Admitted (t : State) (τ : Task) : Prop :=
  (∃ w z, τ = .worker w ∧ t.workers.get? w = some z ∧ z.cancelled = true) ∨
    ∃ c x, τ = .caller c ∧ t.callers.get? c = some x ∧ (x.phase = .fresh ∨ x.dropped = true)

/-- The user does something while no task runs; the caller that is new, if any, is ready or will be
in the foreground. -/
structure Admits (front front' : List CallerId) (s t : State) : Prop where
  use : Use s.bare t.bare
  now : t.now = s.now
  wakes : Wakes (Admitted t) s t
  begins : s.callers.size < t.callers.size →
    s.callers.size ∈ front' ∨ Task.caller s.callers.size ∈ t.ready
  more : front ⊆ front'
  front : ∀ {c}, c ∈ front' → c ∈ front ∨ c = s.callers.size ∧ c < t.callers.size

namespace Admits

section Callers

variable (admits : Admits front front' s t)

include admits

/-- The callers that were there are still there. -/
theorem grows (inside : c < s.callers.size) : c < t.callers.size := by
  obtain ⟨x, found⟩ := Option.isSome_iff_exists.mp (Table.get?_isSome.mpr inside)
  obtain ⟨y, there, -⟩ := admits.use.later.callers c x found
  exact Table.lt_size there

/-- What is known of a caller: it is new, or as it was but that it may have been dropped. -/
theorem becomes (found : t.callers.get? c = some x) :
    (c = s.callers.size ∧ ∃ key request, x = { key, request }) ∨
      ∃ old, s.callers.get? c = some old ∧ (x = old ∨ x = { old with dropped := true }) :=
  admits.use.becomes found

/-- A caller that was there goes on with what it does. -/
theorem kept (found : s.callers.get? c = some old) :
    ∃ x, t.callers.get? c = some x ∧ x.phase = old.phase ∧ x.limit = old.limit := by
  obtain ⟨x, there, -⟩ := admits.use.later.callers c old found
  refine ⟨x, there, ?_⟩
  rcases admits.becomes there with ⟨same, -⟩ | ⟨old', found', same⟩
  · exact absurd same (Nat.ne_of_lt (Table.lt_size found))
  · have found' : s.callers.get? c = some old' := found'
    obtain rfl := Option.some.inj (found.symm.trans found')
    rcases same with rfl | rfl
    · exact ⟨rfl, rfl⟩
    · exact ⟨rfl, rfl⟩

/-- A caller that has not been called is new or has not been before. -/
theorem fresh_before (fresh : t.Fresh c) : c = s.callers.size ∨ s.Fresh c := by
  obtain ⟨x, found, phase⟩ := fresh
  rcases admits.becomes found with ⟨same, -⟩ | ⟨old, found', same⟩
  · exact .inl same
  · refine .inr ⟨old, found', ?_⟩
    rcases same with rfl | rfl
    · exact phase
    · exact phase

/-- A caller that has not been offered to any worker is new or was not before. -/
theorem early_before (early : t.Early c) : c = s.callers.size ∨ s.Early c := by
  obtain ⟨x, found, phase⟩ := early
  rcases admits.becomes found with ⟨same, -⟩ | ⟨old, found', same⟩
  · exact .inl same
  · refine .inr ⟨old, found', ?_⟩
    rcases same with rfl | rfl
    · exact phase
    · exact phase

/-- A caller that was there keeps no turn that it did not keep before. -/
theorem keepsTurn_before (inside : c < s.callers.size) (keeps : t.keepsTurn front' c = true) :
    s.keepsTurn front c = true := by
  obtain ⟨apart, x, found, direct, full, kept⟩ := keepsTurn_iff.mp keeps
  refine keepsTurn_iff.mpr ⟨fun before ↦ apart (admits.more before), ?_⟩
  rcases admits.becomes found with ⟨same, -⟩ | ⟨old, found', same⟩
  · exact absurd same (Nat.ne_of_lt inside)
  · rcases same with rfl | rfl
    · exact ⟨_, found', direct, full, kept⟩
    · exact Bool.noConfusion kept

/-- A mailbox is as it was. -/
theorem mailbox (found : t.workers.get? w = some z) :
    ∃ y, s.workers.get? w = some y ∧ z.mailbox = y.mailbox := by
  obtain ⟨y, there, same⟩ := admits.use.of_worker found
  refine ⟨y, there, ?_⟩
  rcases same with rfl | rfl
  · rfl
  · rfl

/-- A worker that was told to leave still is. -/
theorem cancelled (found : s.workers.get? w = some y) (told : y.cancelled = true) :
    ∃ z, t.workers.get? w = some z ∧ z.cancelled = true := by
  obtain ⟨z, there, later⟩ := admits.use.later.workers w y found
  exact ⟨z, there, later.cancelled told⟩

theorem due_before (inside : c < s.callers.size) (due : t.Due c) : s.Due c := by
  obtain ⟨x, l, found, set, late⟩ := due
  rcases admits.becomes found with ⟨same, -⟩ | ⟨old, found', same⟩
  · exact absurd same (Nat.ne_of_lt inside)
  · refine ⟨old, l, found', ?_, admits.now ▸ late⟩
    rcases same with rfl | rfl
    · exact set
    · exact set

/-- What the user does wakes no worker but to leave. -/
theorem quiet (h : Quiet s) : Quiet t where
  rests := by
    rcases admits.wakes.running with same | rests
    · exact same.trans h.rests
    · exact rests
  placeless := by
    intro w z found
    obtain ⟨y, there, same⟩ := admits.mailbox found
    rw [same]
    exact h.placeless there
  told := by
    intro w ready
    obtain ⟨woken, same, -, causes⟩ := admits.wakes.ready
    rw [same] at ready
    rcases List.mem_append.mp ready with before | new
    · obtain ⟨y, found, told⟩ := h.told before
      exact admits.cancelled found told
    · rcases (causes _ new).2.2 with ⟨v, z, named, found, told⟩ | ⟨c, x, named, -⟩
      · exact ⟨z, (Task.worker.inj named).symm ▸ found, told⟩
      · exact Task.noConfusion named

/-- While no task runs, the schedule consists of the tasks that are ready. -/
theorem schedules (quiet : Quiet s) : s.schedule = s.ready ∧ t.schedule = t.ready := by
  have rests := (admits.quiet quiet).rests
  rw [schedule, schedule, quiet.rests, rests]
  exact ⟨rfl, rfl⟩

/-- Whoever is ready stays so. -/
theorem longer (quiet : Quiet s) : s.schedule.Sublist t.schedule := by
  obtain ⟨before, after⟩ := admits.schedules quiet
  obtain ⟨woken, ready, -⟩ := admits.wakes.ready
  rw [before, after, ready]
  exact List.sublist_append_left _ _

end Callers

section Kept

variable (h : Orderly front s) (admits : Admits front front' s t)

include h admits

theorem owned : Owned t.workers t.callers :=
  Use.owned (s := s.bare) (t := t.bare) h.owned admits.use

/-- A caller that waits for a place was there before. -/
theorem lined_before (found : t.workers.get? w = some z) (inside : c ∈ z.mailbox.lined) :
    c < s.callers.size ∧ ∃ y, s.workers.get? w = some y ∧ z.mailbox = y.mailbox := by
  obtain ⟨y, there, same⟩ := admits.mailbox found
  rw [same] at inside
  obtain ⟨-, x, known, -⟩ := suspended_of_lined h.owned there inside
  exact ⟨Table.lt_size known, y, there, same⟩

theorem foreground (foremost : t.foreground = some c) :
    c ∈ front' ∧ Task.caller c ∉ t.ready := by
  have same := admits.wakes.foreground.symm.trans foremost
  obtain ⟨inside, idle⟩ := h.foreground same
  refine ⟨admits.more inside, fun ready ↦ ?_⟩
  obtain ⟨woken, ready', -, causes⟩ := admits.wakes.ready
  rw [ready'] at ready
  rcases List.mem_append.mp ready with before | new
  · exact idle before
  · have other := (causes _ new).2.1
    rw [same] at other
    exact other rfl

theorem later (less : c < d) (inside : d < t.callers.size) (apart : c ∉ front')
    (apart' : d ∉ front') (early : t.Early c) : t.Fresh d := by
  obtain ⟨x, found⟩ := Option.isSome_iff_exists.mp (Table.get?_isSome.mpr inside)
  rcases admits.becomes found with ⟨-, key, request, rfl⟩ | ⟨old, found', same⟩
  · exact ⟨_, found, rfl⟩
  · have known : d < s.callers.size := Table.lt_size found'
    rcases admits.early_before early with rfl | before
    · exact absurd known (Nat.lt_asymm less)
    · obtain ⟨y, there, phase⟩ := h.later less known (fun inside ↦ apart (admits.more inside))
        (fun inside ↦ apart' (admits.more inside)) before
      have found' : s.callers.get? d = some old := found'
      obtain rfl := Option.some.inj (found'.symm.trans there)
      refine ⟨x, found, ?_⟩
      rcases same with rfl | rfl
      · exact phase
      · exact phase

theorem line (w : WorkerId) : ((t.line w).filter (t.keepsTurn front')).Pairwise (· < ·) := by
  have same : t.line w = s.line w := by
    have accepted : t.acceptances w = s.acceptances w := admits.use.acceptances w
    rw [State.line, State.line, accepted]
    cases found : t.workers.get? w with
    | some z =>
      obtain ⟨y, there, mailbox⟩ := admits.mailbox found
      rw [there, Option.map_some, Option.map_some, mailbox]
    | none =>
      cases there : s.workers.get? w with
      | none => rfl
      | some y =>
        obtain ⟨z, found', -⟩ := admits.use.later.workers w y there
        exact absurd (found.symm.trans found') (by simp)
  rw [same]
  apply filter_order _ (h.line w)
  exact fun c inside keeps ↦ admits.keepsTurn_before (h.of_line inside).1 keeps

theorem tickets (found : t.callers.get? c = some x) (set : x.limit = some l) :
    l.ticket < t.tickets ∧
      ∃ limit, t.policy.requestTimeout = some limit ∧ l.time ≤ t.after limit := by
  have policy : t.policy = s.policy := admits.use.later.policy
  rcases admits.becomes found with ⟨-, key, request, rfl⟩ | ⟨old, found', same⟩
  · exact absurd set (by simp)
  · have set : old.limit = some l := by
      rcases same with rfl | rfl
      · exact set
      · exact set
    obtain ⟨ticket, limit, bound, time⟩ := h.tickets found' set
    refine ⟨Nat.lt_of_lt_of_le ticket admits.wakes.tickets, limit, policy ▸ bound, ?_⟩
    rw [after_congr admits.now]
    exact time

theorem unlimited (early : t.Early c) (found : t.callers.get? c = some x) : x.limit = none := by
  rcases admits.becomes found with ⟨-, key, request, rfl⟩ | ⟨old, found', same⟩
  · rfl
  · have known : c < s.callers.size := Table.lt_size found'
    have before := (admits.early_before early).resolve_left (Nat.ne_of_lt known)
    have unset := h.unlimited before found'
    rcases same with rfl | rfl
    · exact unset
    · exact unset

/-- A caller that waits for a place and keeps its turn is not woken. -/
theorem not_woken (found : t.workers.get? w = some z) (inside : c ∈ z.mailbox.lined)
    (keeps : t.keepsTurn front' c = true) (ready : Task.caller c ∈ t.ready) :
    Task.caller c ∈ s.ready := by
  obtain ⟨woken, same, -, causes⟩ := admits.wakes.ready
  rw [same] at ready
  rcases List.mem_append.mp ready with before | new
  · exact before
  · exfalso
    obtain ⟨-, x, known, suspended⟩ := suspended_of_lined (admits.owned h) found inside
    rcases (causes _ new).2.2 with ⟨v, y, named, -⟩ | ⟨d, x', named, known', cause⟩
    · exact Task.noConfusion named
    · obtain rfl := Task.caller.inj named
      obtain rfl := Option.some.inj (known.symm.trans known')
      rcases cause with fresh | dropped
      · exact Phase.noConfusion (suspended.symm.trans fresh)
      · obtain ⟨-, x', known', -, -, kept⟩ := keepsTurn_iff.mp keeps
        obtain rfl := Option.some.inj (known.symm.trans known')
        exact Bool.noConfusion (kept.symm.trans dropped)

theorem limits (found : t.workers.get? w = some z) (less : b < c)
    (keeps : t.keepsTurn front' b = true) (keeps' : t.keepsTurn front' c = true)
    (inside : b ∈ z.mailbox.lined) (inside' : c ∈ z.mailbox.lined)
    (known : t.callers.get? c = some x) (set : x.limit = some l) :
    ∃ x' l', t.callers.get? b = some x' ∧ x'.limit = some l' ∧ l'.time ≤ l.time ∧
      l'.ticket < l.ticket := by
  obtain ⟨old, y, there, same⟩ := admits.lined_before h found inside
  obtain ⟨old', -⟩ := admits.lined_before h found inside'
  rw [same] at inside inside'
  rcases admits.becomes known with ⟨same, -⟩ | ⟨first, known', become⟩
  · exact absurd same (Nat.ne_of_lt old')
  · have limited : first.limit = some l := by
      rcases become with rfl | rfl
      · exact set
      · exact set
    obtain ⟨x', l', there', set', time, ticket⟩ := h.limits there less
      (admits.keepsTurn_before old keeps) (admits.keepsTurn_before old' keeps') inside inside'
      known' limited
    obtain ⟨x'', known'', -, limit⟩ := admits.kept there'
    exact ⟨x'', l', known'', limit.trans set', time, ticket⟩

end Kept

section Order

variable (h : Orderly front s) (quiet : Quiet s) (admits : Admits front front' s t)

include h quiet admits

/-- A caller that is new comes after all that are ready. -/
theorem behind (begins : Task.caller s.callers.size ∈ t.ready) (here : τ ∈ s.schedule) :
    [τ, .caller s.callers.size].Sublist t.schedule := by
  obtain ⟨before, after⟩ := admits.schedules quiet
  obtain ⟨woken, ready, -⟩ := admits.wakes.ready
  have new : Task.caller s.callers.size ∈ woken := by
    rw [ready] at begins
    rcases List.mem_append.mp begins with inside | new
    · exact absurd (h.real (before ▸ inside)) (Nat.lt_irrefl _)
    · exact new
  rw [after, ready]
  rw [before] at here
  exact List.Sublist.append (List.singleton_sublist.mpr here) (List.singleton_sublist.mpr new)

theorem once : t.schedule.Nodup := by
  obtain ⟨before, after⟩ := admits.schedules quiet
  obtain ⟨woken, ready, distinct, causes⟩ := admits.wakes.ready
  rw [after, ready]
  refine List.nodup_append.mpr ⟨before ▸ h.once, distinct, fun τ old υ new same ↦ ?_⟩
  exact (causes υ new).1 (same ▸ old)

theorem real (here : Task.caller c ∈ t.schedule) : c < t.callers.size := by
  obtain ⟨before, after⟩ := admits.schedules quiet
  obtain ⟨woken, ready, -, causes⟩ := admits.wakes.ready
  rw [after, ready] at here
  rcases List.mem_append.mp here with inside | new
  · exact admits.grows (h.real (before ▸ inside))
  · rcases (causes _ new).2.2 with ⟨v, y, named, -⟩ | ⟨d, x, named, known, -⟩
    · exact Task.noConfusion named
    · obtain rfl := Task.caller.inj named
      exact Table.lt_size known

theorem seeking (found : t.callers.get? c = some x) : x.phase ≠ .seeking := by
  intro phase
  rcases admits.becomes found with ⟨-, key, request, rfl⟩ | ⟨old, found', same⟩
  · exact Phase.noConfusion phase
  · have seeking : old.phase = .seeking := by
      rcases same with rfl | rfl
      · exact phase
      · exact phase
    exact absurd (quiet.rests.symm.trans (h.seeking found' seeking)) (by simp)

theorem fresh (apart : c ∉ front') (fresh : t.Fresh c) : Task.caller c ∈ t.schedule := by
  rcases admits.fresh_before fresh with rfl | before
  · obtain ⟨x, found, -⟩ := fresh
    rw [(admits.schedules quiet).2]
    exact (admits.begins (Table.lt_size found)).resolve_left apart
  · exact (admits.longer quiet).subset (h.fresh (fun old ↦ apart (admits.more old)) before)

theorem queued (less : c < d) (apart : c ∉ front') (apart' : d ∉ front') (fresh : t.Fresh c)
    (fresh' : t.Fresh d) : [Task.caller c, .caller d].Sublist t.schedule := by
  have before : s.Fresh c := by
    rcases admits.fresh_before fresh with rfl | before
    · -- Nobody is newer than the caller that is new.
      exfalso
      obtain ⟨x, found, -⟩ := fresh'
      rcases admits.becomes found with ⟨same, -⟩ | ⟨old, found', -⟩
      · exact absurd same (Nat.ne_of_gt less)
      · exact absurd (Table.lt_size found') (Nat.lt_asymm less)
    · exact before
  have old := fun inside ↦ apart (admits.more inside)
  rcases admits.fresh_before fresh' with rfl | before'
  · obtain ⟨x, found, -⟩ := fresh'
    have begins := (admits.begins (Table.lt_size found)).resolve_left apart'
    exact admits.behind h quiet begins (h.fresh old before)
  · have pair := h.queued less old (fun inside ↦ apart' (admits.more inside)) before before'
    exact pair.trans (admits.longer quiet)

theorem turns (found : t.workers.get? w = some z) (less : b < c)
    (keeps : t.keepsTurn front' b = true) (keeps' : t.keepsTurn front' c = true)
    (inside : b ∈ z.mailbox.lined) (inside' : c ∈ z.mailbox.lined)
    (next : Task.caller c ∈ t.ready ∨ c ∈ z.mailbox.reserved) :
    [Task.caller b, .caller c].Sublist t.schedule ∧ (b ∈ z.mailbox.reserved ∨ t.Due b) := by
  obtain ⟨old, y, there, same⟩ := admits.lined_before h found inside
  obtain ⟨old', -⟩ := admits.lined_before h found inside'
  have next : Task.caller c ∈ s.ready ∨ c ∈ y.mailbox.reserved :=
    next.imp (admits.not_woken h found inside' keeps') fun place ↦ same ▸ place
  rw [same] at inside inside' ⊢
  obtain ⟨pair, urgent⟩ := h.turns there less (admits.keepsTurn_before old keeps)
    (admits.keepsTurn_before old' keeps') inside inside' next
  refine ⟨pair.trans (admits.longer quiet), urgent.imp id fun due ↦ ?_⟩
  obtain ⟨x, l, known, set, late⟩ := due
  obtain ⟨x', known', -, limit⟩ := admits.kept known
  exact ⟨x', l, known', limit.trans set, admits.now.symm ▸ late⟩

theorem limited (found : t.workers.get? w = some z) (inside : c ∈ z.mailbox.lined)
    (keeps : t.keepsTurn front' c = true) (known : t.callers.get? c = some x) {limit : Nat}
    (bound : t.policy.requestTimeout = some limit) : ∃ l, x.limit = some l := by
  obtain ⟨old, y, there, same⟩ := admits.lined_before h found inside
  rw [same] at inside
  have policy : t.policy = s.policy := admits.use.later.policy
  rcases admits.becomes known with ⟨same, -⟩ | ⟨first, known', become⟩
  · exact absurd same (Nat.ne_of_lt old)
  · obtain ⟨l, set⟩ := h.limited there inside (admits.keepsTurn_before old keeps)
      (by simp [quiet.rests]) known' (policy ▸ bound)
    refine ⟨l, ?_⟩
    rcases become with rfl | rfl
    · exact set
    · exact set

/-- What the user does while no task runs leaves everyone their turn. -/
theorem orderly : Orderly front' t where
  owned := admits.owned h
  sound := by
    intro w z found
    obtain ⟨y, there, same⟩ := admits.mailbox found
    exact same ▸ h.sound there
  tries := by
    intro c x found
    rcases admits.becomes found with ⟨-, key, request, rfl⟩ | ⟨old, found', same⟩
    · exact Nat.le_refl 3
    · have most := h.tries found'
      rcases same with rfl | rfl
      · exact most
      · exact most
  once := admits.once h quiet
  foreground := admits.foreground h
  known := by
    intro c inside
    rcases admits.front inside with before | ⟨-, known⟩
    · exact admits.grows (h.known before)
    · exact known
  real := admits.real h quiet
  seeking := fun found phase ↦ absurd phase (admits.seeking h quiet found)
  placed := by
    intro w z c found place
    rw [(admits.quiet quiet).placeless found] at place
    exact absurd place List.not_mem_nil
  fresh := admits.fresh h quiet
  queued := admits.queued h quiet
  later := admits.later h
  calm := fun _ _ _ _ found ↦ (admits.quiet quiet).placeless found
  cancelled := by
    intro w c _ _ before
    rw [(admits.schedules quiet).2] at before
    exact (admits.quiet quiet).told (before.subset List.mem_cons_self)
  begun := by
    intro w c accepted
    have same : t.acceptances w = s.acceptances w := admits.use.acceptances w
    rw [same] at accepted
    obtain ⟨known, offered⟩ := h.begun accepted
    refine ⟨admits.grows known, fun early ↦ ?_⟩
    exact offered ((admits.early_before early).resolve_left (Nat.ne_of_lt known))
  line := admits.line h
  turns := admits.turns h quiet
  limits := admits.limits h
  limited := fun found inside keeps _ known bound ↦
    admits.limited h quiet found inside keeps known bound
  tickets := admits.tickets h
  unlimited := admits.unlimited h
  due := by
    intro w z c found inside keeps due
    obtain ⟨old, y, there, same⟩ := admits.lined_before h found inside
    rw [same] at inside
    have here := h.due there inside (admits.keepsTurn_before old keeps)
      (admits.due_before old due)
    exact (admits.longer quiet).subset here

end Order

end Admits

end Signatory.Service.State
