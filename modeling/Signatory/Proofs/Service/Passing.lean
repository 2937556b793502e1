import Signatory.Proofs.Service.Order

/-!
# When time passes

The clock moves only while every task waits. Nothing that is due is passed over, and of two callers
that wait for the same moment the one that was called first has the lower ticket and is woken first;
so nobody loses their turn.
-/

namespace Signatory.Service.State

variable {front : List CallerId} {s t : State} {τ υ : Task} {w : WorkerId} {y z : Worker}
  {b c : CallerId} {x x' : Caller} {l l' : Alarm} {time : Nat}

/-- Every task waits. -/
structure Idle (s : State) : Prop where
  rests : s.running = none
  ready : s.ready = []
  summoned : s.foreground ≠ none → s.isSummoned = false

/-- Every task waits when no step can be taken. -/
theorem idle_of_step (none : s.step = none) : Idle s := by
  unfold step at none
  split at none
  next => exact absurd none (by simp)
  next => exact absurd none (by simp)
  next rests =>
    split at none
    next => exact absurd none (by simp)
    next ready =>
      refine ⟨rests, ready, fun foremost ↦ ?_⟩
      split at none
      next c found =>
        split at none
        next => exact absurd none (by simp)
        next unsummoned => exact Bool.not_eq_true _ ▸ unsummoned
      next missing => exact absurd missing foremost

/-- Nobody is called while every task waits. -/
theorem Idle.not_called (idle : Idle s) : ¬ s.Called τ := by
  rintro (ready | ⟨foremost, summoned⟩)
  · rw [idle.ready] at ready
    exact absurd ready List.not_mem_nil
  · have some_one : s.foreground ≠ none := by
      intro nobody
      simp [nobody] at foremost
    exact absurd (summoned.symm.trans (idle.summoned some_one)) (by simp)

/-- The schedule is empty while every task waits. -/
theorem Idle.schedule (idle : Idle s) : s.schedule = [] := by
  rw [State.schedule, idle.rests, idle.ready]
  rfl

/-- No place is reserved while every task waits. -/
theorem Idle.placeless (idle : Idle s) (h : Orderly front s) (found : s.workers.get? w = some y) :
    y.mailbox.reserved = [] := by
  cases reserved : y.mailbox.reserved with
  | nil => rfl
  | cons c rest =>
    rcases h.placed found (c := c) (by simp [reserved]) with runs | called
    · exact absurd (idle.rests.symm.trans runs) (by simp)
    · exact absurd called idle.not_called

/-- Nobody's time is over while every task waits. -/
theorem Idle.patient (idle : Idle s) (h : Orderly front s) (found : s.workers.get? w = some y)
    (inside : c ∈ y.mailbox.lined) (keeps : s.keepsTurn front c = true)
    (known : s.callers.get? c = some x) (set : x.limit = some l) : s.now < l.time := by
  apply Nat.lt_of_not_le
  intro late
  have here := h.due found inside keeps ⟨x, l, known, set, late⟩
  rw [idle.schedule] at here
  exact absurd here List.not_mem_nil

/-- A request time-out that is longer than thirty years is not beyond what the clock can reach. -/
def Within (s : State) : Prop :=
  ∀ limit, s.policy.requestTimeout = some limit → limit ≤ longWait ∨ s.canReach limit = true

/-- Waits that begin later are over later. -/
theorem after_mono {wait : Nat} (later : s.now ≤ t.now)
    (reach : wait ≤ longWait ∨ t.canReach wait = true) : s.after wait ≤ t.after wait := by
  unfold after
  unfold canReach at reach ⊢
  simp only [decide_eq_true_eq] at reach ⊢
  split <;> split <;> omega

/-- Time passes while every task waits: nothing that is due is passed over, and whoever is due is
called, the lower ticket first. -/
structure Passes (s t : State) (time : Nat) : Prop where
  idle : Idle s
  later : s.now ≤ time
  bare : t.bare = { s.bare with now := time }
  wakes : Wakes (fun τ ↦ ∀ c, τ = .caller c → ∃ x l, s.callers.get? c = some x ∧
    x.limit = some l ∧ l.time = time) s t
  rings : ∀ {c x l}, s.callers.get? c = some x → x.phase.isEnded = false → x.limit = some l →
    s.now < l.time → time ≤ l.time ∧ (l.time = time → t.Called (.caller c))
  order : ∀ {b c x x' l l'}, s.callers.get? b = some x → x.phase.isEnded = false →
    x.limit = some l → l.time = time → s.now < time → s.foreground ≠ some b →
    s.callers.get? c = some x' → x'.limit = some l' → l.ticket < l'.ticket →
    Task.caller c ∈ t.ready → [Task.caller b, .caller c].Sublist t.ready

namespace Passes

variable (h : Orderly front s) (passes : Passes s t time)

section Same

include passes

theorem callers : t.callers = s.callers := by
  have same := congrArg State.callers passes.bare
  exact same

theorem workers : t.workers = s.workers := by
  have same := congrArg State.workers passes.bare
  exact same

theorem now : t.now = time := by
  have same := congrArg State.now passes.bare
  exact same

theorem policy : t.policy = s.policy := by
  have same := congrArg State.policy passes.bare
  exact same

theorem acceptances (w : WorkerId) : t.acceptances w = s.acceptances w := by
  have same := congrArg State.journal passes.bare
  have same : t.journal = s.journal := same
  rw [State.acceptances, State.acceptances, events, events, same]

theorem early : t.Early c ↔ s.Early c := by
  rw [Early, Early, passes.callers]

theorem fresh : t.Fresh c ↔ s.Fresh c := by
  rw [Fresh, Fresh, passes.callers]

theorem keepsTurn : t.keepsTurn front c = s.keepsTurn front c := by
  rw [State.keepsTurn, State.keepsTurn, passes.callers]

theorem rests : t.running = none := by
  rcases passes.wakes.running with same | rests
  · exact same.trans passes.idle.rests
  · exact rests

/-- Whoever is ready waits for this moment. -/
theorem woken (ready : τ ∈ t.ready) : s.foreground.map .caller ≠ some τ ∧
    ∀ c, τ = .caller c → ∃ x l, s.callers.get? c = some x ∧ x.limit = some l ∧ l.time = time := by
  obtain ⟨woken, same, -, causes⟩ := passes.wakes.ready
  rw [same, passes.idle.ready] at ready
  exact (causes τ ready).2

end Same

include h passes

/-- A caller that waits for a place and keeps its turn is called as soon as its time is over. -/
theorem called (found : s.workers.get? w = some y) (inside : c ∈ y.mailbox.lined)
    (keeps : s.keepsTurn front c = true) (known : s.callers.get? c = some x)
    (set : x.limit = some l) : time ≤ l.time ∧ (l.time = time → t.Called (.caller c)) := by
  obtain ⟨-, x', known', suspended⟩ := suspended_of_lined h.owned found inside
  obtain rfl := Option.some.inj (known.symm.trans known')
  apply passes.rings known _ set (passes.idle.patient h found inside keeps known set)
  rw [suspended]
  rfl

theorem turns (found : t.workers.get? w = some z) (less : b < c)
    (keeps : t.keepsTurn front b = true) (keeps' : t.keepsTurn front c = true)
    (inside : b ∈ z.mailbox.lined) (inside' : c ∈ z.mailbox.lined)
    (next : Task.caller c ∈ t.ready ∨ c ∈ z.mailbox.reserved) :
    [Task.caller b, .caller c].Sublist t.schedule ∧ (b ∈ z.mailbox.reserved ∨ t.Due b) := by
  rw [passes.workers] at found
  rw [passes.keepsTurn] at keeps keeps'
  have ready : Task.caller c ∈ t.ready := by
    rcases next with ready | place
    · exact ready
    · rw [passes.idle.placeless h found] at place
      exact absurd place List.not_mem_nil
  obtain ⟨x, l, known, set, time_eq⟩ := (passes.woken ready).2 c rfl
  obtain ⟨x', l', known', set', sooner, ticket⟩ :=
    h.limits found less keeps keeps' inside inside' known set
  have early := passes.idle.patient h found inside keeps known' set'
  obtain ⟨bound, -⟩ := passes.called h found inside keeps known' set'
  have same : l'.time = time := by omega
  obtain ⟨-, x'', known'', suspended⟩ := suspended_of_lined h.owned found inside
  obtain rfl := Option.some.inj (known'.symm.trans known'')
  have apart : s.foreground ≠ some b :=
    fun foremost ↦ (keepsTurn_iff.mp keeps).1 (h.foreground foremost).1
  have pair := passes.order known' (by rw [suspended]; rfl) set' same (same ▸ early) apart known set
    ticket ready
  refine ⟨?_, .inr ⟨x', l', ?_, set', ?_⟩⟩
  · rw [schedule, passes.rests]
    exact pair
  · rw [passes.callers]
    exact known'
  · exact Nat.le_of_eq (same.trans passes.now.symm)

/-- When time passes everyone keeps their turn. -/
theorem orderly (within : t.Within) : Orderly front t where
  owned := by
    rw [passes.workers, passes.callers]
    exact h.owned
  sound := by
    intro w y found
    exact h.sound (passes.workers ▸ found)
  tries := by
    intro c x found
    exact h.tries (passes.callers ▸ found)
  once := by
    obtain ⟨woken, same, distinct, -⟩ := passes.wakes.ready
    rw [schedule, passes.rests, same, passes.idle.ready]
    exact distinct
  foreground := by
    intro c foremost
    have same := passes.wakes.foreground.symm.trans foremost
    refine ⟨(h.foreground same).1, fun ready ↦ (passes.woken ready).1 ?_⟩
    rw [same]
    rfl
  known := by
    intro c inside
    rw [passes.callers]
    exact h.known inside
  real := by
    intro c here
    rw [schedule, passes.rests] at here
    obtain ⟨x, l, known, -⟩ := (passes.woken here).2 c rfl
    rw [passes.callers]
    exact Table.lt_size known
  seeking := by
    intro c x found phase
    have runs := h.seeking (passes.callers ▸ found) phase
    exact absurd (passes.idle.rests.symm.trans runs) (by simp)
  placed := by
    intro w y c found place
    rw [passes.idle.placeless h (passes.workers ▸ found)] at place
    exact absurd place List.not_mem_nil
  fresh := by
    intro c apart fresh
    have here := h.fresh apart (passes.fresh.mp fresh)
    rw [passes.idle.schedule] at here
    exact absurd here List.not_mem_nil
  queued := by
    intro c d less apart apart' fresh fresh'
    have here := h.fresh apart (passes.fresh.mp fresh)
    rw [passes.idle.schedule] at here
    exact absurd here List.not_mem_nil
  later := by
    intro c d less inside apart apart' early
    rw [passes.callers] at inside
    exact passes.fresh.mpr (h.later less inside apart apart' (passes.early.mp early))
  calm := by
    intro c _ _ w y found
    exact passes.idle.placeless h (passes.workers ▸ found)
  cancelled := by
    intro w c apart fresh _
    have here := h.fresh apart (passes.fresh.mp fresh)
    rw [passes.idle.schedule] at here
    exact absurd here List.not_mem_nil
  begun := by
    intro w c accepted
    rw [passes.acceptances] at accepted
    rw [passes.callers, passes.early]
    exact h.begun accepted
  line := by
    intro w
    have same : t.line w = s.line w := by
      rw [State.line, State.line, passes.acceptances, passes.workers]
    rw [same]
    exact filter_order (fun c _ keeps ↦ passes.keepsTurn ▸ keeps) (h.line w)
  turns := passes.turns h
  limits := by
    intro w y b c x l found less keeps keeps' inside inside' known set
    rw [passes.workers] at found
    rw [passes.keepsTurn] at keeps keeps'
    rw [passes.callers] at known ⊢
    exact h.limits found less keeps keeps' inside inside' known set
  limited := by
    intro w y c x limit found inside keeps _ known bound
    rw [passes.keepsTurn] at keeps
    rw [passes.policy] at bound
    exact h.limited (passes.workers ▸ found) inside keeps (by simp [passes.idle.rests])
      (passes.callers ▸ known) bound
  tickets := by
    intro c x l known set
    obtain ⟨ticket, limit, bound, soon⟩ := h.tickets (passes.callers ▸ known) set
    rw [passes.policy]
    refine ⟨Nat.lt_of_lt_of_le ticket passes.wakes.tickets, limit, bound, ?_⟩
    have later : s.now ≤ t.now := passes.now.symm ▸ passes.later
    exact Nat.le_trans soon (after_mono later (within limit (passes.policy ▸ bound)))
  unlimited := by
    intro c x early known
    exact h.unlimited (passes.early.mp early) (passes.callers ▸ known)
  due := by
    intro w y c found inside keeps due
    rw [passes.workers] at found
    rw [passes.keepsTurn] at keeps
    obtain ⟨x, l, known, set, late⟩ := due
    rw [passes.callers] at known
    rw [passes.now] at late
    obtain ⟨bound, rings⟩ := passes.called h found inside keeps known set
    have called := rings (Nat.le_antisymm late bound)
    have apart : t.foreground ≠ some c := by
      rw [passes.wakes.foreground]
      exact fun foremost ↦ (keepsTurn_iff.mp keeps).1 (h.foreground foremost).1
    rw [schedule, passes.rests]
    exact called.ready apart

end Passes

/-- The entries of a table are listed with their numbers. -/
theorem mem_toList {α : Type} {t : Table α} {i : Nat} {a : α} :
    (i, a) ∈ t.toList ↔ t.get? i = some a := by
  unfold Table.toList Table.get?
  rw [List.mem_map]
  constructor
  · rintro ⟨⟨b, j⟩, listed, same⟩
    obtain ⟨rfl, rfl⟩ := Prod.mk.inj same
    simpa using List.mem_zipIdx_iff_getElem?.mp listed
  · intro found
    exact ⟨(a, i), List.mem_zipIdx_iff_getElem?.mpr (by simpa using found), rfl⟩

/-- What a caller waits for is its limit. -/
theorem mem_alarms : (l, Task.caller c) ∈ s.alarms ↔
    s.now < l.time ∧ ∃ x, s.callers.get? c = some x ∧ x.phase.isEnded = false ∧
      x.limit = some l := by
  unfold alarms
  dsimp only
  rw [List.mem_filter, List.mem_append, List.mem_filterMap, List.mem_filterMap]
  simp only [decide_eq_true_eq]
  constructor
  · rintro ⟨⟨⟨w, y⟩, -, found⟩ | ⟨⟨d, x⟩, listed, found⟩, later⟩
    · exfalso
      split at found
      next => simp at found
      next => simp at found
    · refine ⟨later, x, ?_⟩
      dsimp only at found
      split at found
      next => exact absurd found (by simp)
      next live =>
        obtain ⟨l', set, same⟩ := Option.map_eq_some_iff.mp found
        obtain ⟨rfl, named⟩ := Prod.mk.inj same
        obtain rfl := Task.caller.inj named
        exact ⟨mem_toList.mp listed, Bool.not_eq_true _ ▸ live, set⟩
  · rintro ⟨later, x, found, live, set⟩
    refine ⟨.inr ⟨(c, x), mem_toList.mpr found, ?_⟩, later⟩
    simp [live, set]

/-- The next moment at which something is due is not after anything that is due. -/
theorem nextAlarm_le_of_mem (listed : (l, τ) ∈ s.alarms) :
    ∃ next, s.nextAlarm? = some next ∧ next ≤ l.time := by
  have listed : l.time ∈ s.alarms.map (·.1.time) := List.mem_map.mpr ⟨(l, τ), listed, rfl⟩
  cases next : s.nextAlarm? with
  | none =>
    unfold nextAlarm? at next
    rw [List.min?_eq_none_iff.mp next] at listed
    exact absurd listed List.not_mem_nil
  | some next' => exact ⟨next', rfl, (List.min?_eq_some_iff.mp next).2 _ listed⟩

/-- The next moment at which something is due is not after the limit of a caller. -/
theorem nextAlarm_le (found : s.callers.get? c = some x) (live : x.phase.isEnded = false)
    (set : x.limit = some l) (early : s.now < l.time) :
    ∃ next, s.nextAlarm? = some next ∧ next ≤ l.time :=
  nextAlarm_le_of_mem (mem_alarms.mpr ⟨early, x, found, live, set⟩)

/-- Time may pass as long as nothing is due. -/
theorem Passes.wait (idle : Idle s) (later : s.now ≤ time)
    (before : ∀ next, s.nextAlarm? = some next → time < next) :
    Passes s { s with now := time } time where
  idle := idle
  later := later
  bare := rfl
  wakes := (Wakes.refl s).frame (.inl rfl) rfl rfl rfl rfl rfl rfl
  rings := by
    intro c x l found live set early
    obtain ⟨next, due, bound⟩ := nextAlarm_le found live set early
    have sooner := before next due
    exact ⟨by omega, fun same ↦ by omega⟩
  order := by
    intro b c x x' l l' _ _ _ _ _ _ _ _ _ ready
    have ready : Task.caller c ∈ s.ready := ready
    rw [idle.ready] at ready
    exact absurd ready List.not_mem_nil

/-- Whoever is woken after another is behind it. -/
theorem wakeAll_order {before after : List Task} (idle : υ ∉ s.ready) (apart : υ ∉ before)
    (others : s.foreground.map .caller ≠ some τ)
    (ready : υ ∈ ((before ++ τ :: after).foldl wake s).ready) (different : τ ≠ υ) :
    [τ, υ].Sublist ((before ++ τ :: after).foldl wake s).ready := by
  rw [List.foldl_append, List.foldl_cons] at ready ⊢
  have first : Wakes (· ∈ before) s (before.foldl wake s) :=
    (Wakes.refl s).wakeAll fun _ inside ↦ inside
  have second : Wakes (· = τ) (before.foldl wake s) ((before.foldl wake s).wake τ) :=
    (Wakes.refl _).wake rfl
  have third : Wakes (· ∈ after) ((before.foldl wake s).wake τ)
      (after.foldl wake ((before.foldl wake s).wake τ)) :=
    (Wakes.refl _).wakeAll fun _ inside ↦ inside
  have here : τ ∈ ((before.foldl wake s).wake τ).ready := by
    rcases called_wake (before.foldl wake s) τ with ready | ⟨foremost, -⟩
    · exact ready
    · rw [second.foreground, first.foreground] at foremost
      exact absurd foremost others
  have absent : υ ∉ ((before.foldl wake s).wake τ).ready := by
    obtain ⟨woken, same, -, causes⟩ := first.ready
    obtain ⟨woken', same', -, causes'⟩ := second.ready
    rw [same', same]
    intro inside
    rcases List.mem_append.mp inside with earlier | new
    · rcases List.mem_append.mp earlier with old | new
      · exact idle old
      · exact apart (causes υ new).2.2
    · exact different (causes' υ new).2.2.symm
  obtain ⟨woken, same, -⟩ := third.ready
  rw [same] at ready ⊢
  have new := (List.mem_append.mp ready).resolve_left absent
  exact List.Sublist.append (List.singleton_sublist.mpr here) (List.singleton_sublist.mpr new)

/-- What is due at a moment. -/
theorem mem_dueAt : Task.caller c ∈ s.dueAt time ↔
    ∃ x l, s.callers.get? c = some x ∧ x.phase.isEnded = false ∧ x.limit = some l ∧
      l.time = time ∧ s.now < time := by
  unfold dueAt
  simp only [List.mem_map, List.mem_mergeSort, List.mem_filter, decide_eq_true_eq, Prod.exists,
    exists_eq_right]
  constructor
  · rintro ⟨l, listed, same⟩
    obtain ⟨early, x, found, live, set⟩ := mem_alarms.mp listed
    exact ⟨x, l, found, live, set, same, same ▸ early⟩
  · rintro ⟨x, l, found, live, set, same, early⟩
    exact ⟨l, mem_alarms.mpr ⟨same.symm ▸ early, x, found, live, set⟩, same⟩

/-- What is due at a moment is in the order of the tickets. -/
theorem dueAt_order (found : s.callers.get? b = some x) (live : x.phase.isEnded = false)
    (set : x.limit = some l) (same : l.time = time) (early : s.now < time)
    (found' : s.callers.get? c = some x') (set' : x'.limit = some l')
    (ticket : l.ticket < l'.ticket) :
    ∃ before after, s.dueAt time = before ++ Task.caller b :: after ∧
      Task.caller c ∉ before := by
  unfold dueAt
  dsimp only
  generalize sorted : (s.alarms.filter (·.1.time = time)).mergeSort
    (fun a b ↦ a.1.ticket ≤ b.1.ticket) = due
  have order : due.Pairwise fun a b ↦ a.1.ticket ≤ b.1.ticket := by
    have sorts := @List.pairwise_mergeSort (Alarm × Task) (fun a b ↦ a.1.ticket ≤ b.1.ticket)
      (fun a b c ↦ by simpa using Nat.le_trans) (fun a b ↦ by simpa using Nat.le_total _ _)
      (s.alarms.filter (·.1.time = time))
    rw [sorted] at sorts
    exact sorts.imp fun le ↦ by simpa using le
  have listed : (l, Task.caller b) ∈ due := by
    rw [← sorted, List.mem_mergeSort, List.mem_filter]
    exact ⟨mem_alarms.mpr ⟨same.symm ▸ early, x, found, live, set⟩, by simpa using same⟩
  obtain ⟨before, after, rfl⟩ := List.append_of_mem listed
  refine ⟨before.map (·.2), after.map (·.2), by simp, fun inside ↦ ?_⟩
  obtain ⟨⟨l'', υ⟩, here, named⟩ := List.mem_map.mp inside
  obtain rfl : υ = Task.caller c := named
  have least := (List.pairwise_append.mp order).2.2 _ here _ List.mem_cons_self
  have there : (l'', Task.caller c) ∈ s.alarms := by
    have member : (l'', Task.caller c) ∈ before ++ (l, Task.caller b) :: after :=
      List.mem_append_left _ here
    rw [← sorted, List.mem_mergeSort, List.mem_filter] at member
    exact member.1
  obtain ⟨-, x'', found'', -, set''⟩ := mem_alarms.mp there
  obtain rfl := Option.some.inj (found'.symm.trans found'')
  obtain rfl := Option.some.inj (set'.symm.trans set'')
  have least : l'.ticket ≤ l.ticket := least
  omega

/-- The clock may move to the next moment at which something is due. -/
theorem Passes.ring (idle : Idle s) (next : s.nextAlarm? = some time) :
    Passes s ((s.dueAt time).foldl wake { s with now := time }) time where
  idle := idle
  later := Nat.le_of_lt (now_lt_nextAlarm next)
  bare := bare_wakeAll _ _
  wakes := by
    have base : Wakes (fun τ ↦ ∀ c, τ = .caller c → ∃ x l, s.callers.get? c = some x ∧
        x.limit = some l ∧ l.time = time) s { s with now := time } :=
      (Wakes.refl s).frame (.inl rfl) rfl rfl rfl rfl rfl rfl
    apply base.wakeAll
    rintro τ inside c rfl
    obtain ⟨x, l, found, -, set, same, -⟩ := mem_dueAt.mp inside
    exact ⟨x, l, found, set, same⟩
  rings := by
    intro c x l found live set early
    obtain ⟨next', due, bound⟩ := nextAlarm_le found live set early
    obtain rfl := Option.some.inj (next.symm.trans due)
    refine ⟨bound, fun same ↦ ?_⟩
    have listed : Task.caller c ∈ s.dueAt time :=
      mem_dueAt.mpr ⟨x, l, found, live, set, same, same ▸ early⟩
    obtain ⟨before, after, split⟩ := List.append_of_mem listed
    rw [split, List.foldl_append, List.foldl_cons]
    have rest : Wakes (· ∈ after) ((before.foldl wake { s with now := time }).wake (.caller c))
        (after.foldl wake ((before.foldl wake { s with now := time }).wake (.caller c))) :=
      (Wakes.refl _).wakeAll fun _ inside ↦ inside
    exact rest.called (called_wake _ _)
  order := by
    intro b c x x' l l' found live set same early others found' set' ticket ready
    obtain ⟨before, after, split, apart⟩ :=
      dueAt_order found live set same early found' set' ticket
    rw [split] at ready ⊢
    refine wakeAll_order ?_ apart ?_ ready ?_
    · change Task.caller c ∉ s.ready
      rw [idle.ready]
      exact List.not_mem_nil
    · intro foremost
      obtain ⟨d, foremost, named⟩ := Option.map_eq_some_iff.mp foremost
      exact others (Task.caller.inj named ▸ foremost)
    · intro named
      obtain rfl := Task.caller.inj named
      obtain rfl := Option.some.inj (found.symm.trans found')
      obtain rfl := Option.some.inj (set.symm.trans set')
      exact Nat.lt_irrefl _ ticket

end Signatory.Service.State
