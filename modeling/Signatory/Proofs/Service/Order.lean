import Signatory.Proofs.Service.Turns

/-!
# Everyone keeps their turn

Whatever a task does leaves the schedule, the mailboxes and the limits in order. There is one lemma
for each part of `Orderly`, and each looks at what the task that runs has done and at whom it has
woken.
-/

namespace Signatory.Service.State

variable {front : List CallerId} {s t : State} {τ υ : Task} {w v : WorkerId} {y z : Worker}
  {b c d : CallerId} {x old : Caller} {l : Alarm}

/-- A caller that is called and is not in the foreground is ready. -/
theorem Called.ready (called : s.Called (.caller c)) (other : s.foreground ≠ some c) :
    Task.caller c ∈ s.ready := by
  rcases called with ready | ⟨foremost, -⟩
  · exact ready
  · obtain ⟨d, named, same⟩ := Option.map_eq_some_iff.mp foremost
    exact absurd (Task.caller.inj same ▸ named) other

/-- A caller that has been offered to a worker is not early. -/
theorem not_early (found : s.callers.get? c = some x) (fresh : x.phase ≠ .fresh)
    (seeking : x.phase ≠ .seeking) : ¬ s.Early c := by
  rintro ⟨x', found', early⟩
  obtain rfl := Option.some.inj (found.symm.trans found')
  rcases early with isFresh | ⟨isSeeking, -⟩
  · exact fresh isFresh
  · exact seeking isSeeking

/-- A caller that has not been called is early. -/
theorem Fresh.early (fresh : s.Fresh c) : s.Early c := by
  obtain ⟨x, found, phase⟩ := fresh
  exact ⟨x, found, .inl phase⟩

/-- Fewer callers that keep their turn are still in order. -/
theorem filter_order {p q : CallerId → Bool} {cs : List CallerId}
    (fewer : ∀ c ∈ cs, q c = true → p c = true) (order : (cs.filter p).Pairwise (· < ·)) :
    (cs.filter q).Pairwise (· < ·) := by
  have same : (cs.filter p).filter q = cs.filter q := by
    rw [List.filter_filter]
    apply List.filter_congr
    intro c inside
    cases turn : q c with
    | false => rfl
    | true => rw [fewer c inside turn]; rfl
  rw [← same]
  exact order.sublist List.filter_sublist

/-- The line of a worker that is there. -/
theorem line_eq (found : s.workers.get? w = some y) :
    s.line w = s.acceptances w ++ y.mailbox.callers := by
  rw [State.line, found]
  rfl

namespace Orderly

section Line

variable (h : Orderly front s)

include h

/-- Whoever has come to a mailbox has been offered. -/
theorem of_mailbox (found : s.workers.get? w = some y) (inside : c ∈ y.mailbox.callers) :
    c < s.callers.size ∧ ¬ s.Early c := by
  rcases List.mem_append.mp inside with queued | lined
  · obtain ⟨x, known, phase⟩ := phase_of_held h.owned found (queue_subset_held queued)
    refine ⟨Table.lt_size known, not_early known ?_ ?_⟩
    · intro fresh
      rw [fresh] at phase
      simp [Phase.isEnded] at phase
    · intro seeking
      rw [seeking] at phase
      simp [Phase.isEnded] at phase
  · obtain ⟨-, x, known, phase⟩ := suspended_of_lined h.owned found lined
    exact ⟨Table.lt_size known, not_early known (by simp [phase]) (by simp [phase])⟩

/-- Whoever has come to a worker has been offered. -/
theorem of_line (inside : c ∈ s.line w) : c < s.callers.size ∧ ¬ s.Early c := by
  rcases List.mem_append.mp inside with accepted | here
  · exact h.begun accepted
  · cases found : s.workers.get? w with
    | none =>
      rw [found] at here
      exact absurd here List.not_mem_nil
    | some y =>
      rw [found] at here
      exact h.of_mailbox found here

/-- A caller that keeps its turn and is about to be offered comes after all that are there. -/
theorem last (offers : Offers s.bare c x w) (keeps : s.keepsTurn front c = true)
    (inside : b ∈ s.line v) (keeps' : s.keepsTurn front b = true) : b < c := by
  obtain ⟨apart, y, found, -, full, -⟩ := keepsTurn_iff.mp keeps
  have early : s.Early c := ⟨x, offers.found, .inr ⟨offers.seeking, by
    obtain rfl := Option.some.inj (found.symm.trans offers.found)
    exact full⟩⟩
  have ⟨known, offered⟩ := h.of_line inside
  rcases Nat.lt_trichotomy b c with before | same | after
  · exact before
  · exact absurd (same ▸ early) offered
  · exact absurd (h.later after known apart (keepsTurn_iff.mp keeps').1 early).early offered

/-- A caller that keeps its turn and is about to be offered finds no place reserved. -/
theorem unreserved (offers : Offers s.bare c x w) (keeps : s.keepsTurn front c = true)
    (found : s.workers.get? v = some y) : y.mailbox.reserved = [] := by
  obtain ⟨apart, x', known, -, full, -⟩ := keepsTurn_iff.mp keeps
  obtain rfl := Option.some.inj (known.symm.trans offers.found)
  exact h.calm apart ⟨x', known, .inr ⟨offers.seeking, full⟩⟩ found

/-- Who has a place reserved and keeps its turn is in the schedule. -/
theorem scheduled (found : s.workers.get? w = some y) (place : b ∈ y.mailbox.reserved)
    (keeps : s.keepsTurn front b = true) : Task.caller b ∈ s.schedule := by
  rcases h.placed found place with runs | called
  · rw [schedule, runs]
    exact List.mem_cons_self
  · refine List.mem_append_right _ (called.ready fun foremost ↦ ?_)
    exact (keepsTurn_iff.mp keeps).1 (h.foreground foremost).1

end Line

end Orderly

/-- A caller that is woken while it waits for a place has just been given one, and somebody else has
woken it. -/
theorem Rouses.granted (rouses : Rouses s t c) (before : Owned s.workers s.callers)
    (stir : Stir s τ t) (found : t.workers.get? w = some z) (inside : c ∈ z.mailbox.lined) :
    τ ≠ .caller c ∧ c ∈ z.mailbox.reserved ∧
      ∃ y, s.workers.get? w = some y ∧ c ∈ y.mailbox.waiting := by
  have after : Owned t.workers t.callers := Change.owned (s := s.bare) (t := t.bare) before stir.change
  obtain ⟨opened, x, known, suspended⟩ := suspended_of_lined after found inside
  obtain ⟨old, there, was⟩ := stir.change.suspended known suspended
  rcases rouses with ⟨v, y, found', held⟩ | ⟨v, y, found', waits, place⟩
  · obtain ⟨x', same, phase⟩ := phase_of_held before found' held
    obtain rfl := Option.some.inj (there.symm.trans same)
    rcases was with still | ⟨seeking, -⟩
    · simp [still, Phase.isEnded] at phase
    · simp [seeking, Phase.isEnded] at phase
  · obtain ⟨-, x', same, phase⟩ :=
      suspended_of_lined before found' (List.mem_append_right _ waits)
    obtain rfl := Option.some.inj (there.symm.trans same)
    have here : v = w := by
      rcases was with still | ⟨seeking, -⟩
      · exact Phase.suspended.inj (phase.symm.trans still)
      · exact Phase.noConfusion (phase.symm.trans seeking)
    subst here
    have place : c ∈ z.mailbox.reserved := by
      rcases place z found with closed | place
      · exact absurd (closed.symm.trans opened) (by simp)
      · exact place
    refine ⟨fun own ↦ ?_, place, y, found', waits⟩
    have change := stir.change
    rw [own] at change
    obtain ⟨same, -⟩ := change.lingers there phase known suspended
    have same : t.workers = s.workers := same
    rw [same, found'] at found
    obtain rfl := Option.some.inj found
    have once := lined_once before found'
    exact absurd rfl ((List.nodup_append.mp once).2.2 c place c waits)

namespace Stir

section Resting

variable (stir : Stir s τ t)

include stir

theorem present : c < t.callers.size ↔ c < s.callers.size := by
  rw [← Table.get?_isSome, ← Table.get?_isSome]
  constructor
  · intro inside
    obtain ⟨x, found⟩ := Option.isSome_iff_exists.mp inside
    rcases stir.change.caller found with same | ⟨old, there, -⟩
    · exact Option.isSome_iff_exists.mpr ⟨x, same⟩
    · exact Option.isSome_iff_exists.mpr ⟨old, there⟩
  · intro inside
    obtain ⟨x, found⟩ := Option.isSome_iff_exists.mp inside
    obtain ⟨y, there, -⟩ := stir.change.later.callers c x found
    exact Option.isSome_iff_exists.mpr ⟨y, there⟩

/-- A caller that rests has been called and has been offered to a worker. -/
theorem rested (found : t.callers.get? c = some x) (early : x.phase = .fresh ∨ x.phase = .seeking)
    (own : Task.caller c = τ) : t.running ≠ none := by
  intro rests
  have decided := stir.rests rests
  rw [← own] at decided
  have patient := decided x found
  rcases early with isFresh | isSeeking
  · exact patient.begun isFresh
  · exact patient.decided isSeeking

theorem awake (fresh : t.Fresh c) (own : Task.caller c = τ) : t.running ≠ none := by
  obtain ⟨x, found, phase⟩ := fresh
  exact stir.rested found (.inl phase) own

/-- A caller that waits for a place without having one, and knows when it will give up, may rest. -/
theorem waiting (rests : t.running = none) (own : Task.caller c = τ)
    (found : t.callers.get? c = some x) (suspended : x.phase = .suspended w)
    (there : t.workers.get? w = some z) : c ∉ z.mailbox.reserved ∧
      (x.direct = none → ∀ limit, t.policy.requestTimeout = some limit →
        ∃ alarm, x.limit = some alarm ∧ t.now < alarm.time) := by
  have decided := stir.rests rests
  rw [← own] at decided
  exact (decided x found).placeless w z suspended there

end Resting

section Callers

variable (h : Orderly front s) (stir : Stir s τ t)

include h stir

theorem owned : Owned t.workers t.callers :=
  Change.owned (s := s.bare) (t := t.bare) h.owned stir.change

theorem sound (found : t.workers.get? w = some z) : z.mailbox.Sound := by
  cases stir.change.trades found with
  | new missing capacity mailbox =>
    rw [mailbox]
    exact .unused capacity
  | old found' delivers => exact delivers.sound (h.sound found')

theorem tries (found : t.callers.get? c = some x) : x.tries ≤ 3 := by
  rcases stir.change.caller found with same | ⟨old, there, moves⟩
  · exact h.tries same
  · have most := h.tries there
    cases moves with
    | retry => exact Nat.le_trans (Nat.sub_le _ _) most
    | _ => exact most

theorem early (early : t.Early c) : s.Early c :=
  Change.early (s := s.bare) (t := t.bare) h.tries stir.change early

theorem keepsTurn (keeps : t.keepsTurn front c = true) : s.keepsTurn front c = true :=
  Change.keepsTurn (s := s.bare) (t := t.bare) h.tries stir.change keeps

theorem foreground (front' : t.foreground = some c) : c ∈ front ∧ Task.caller c ∉ t.ready := by
  have same := stir.wakes.foreground.symm.trans front'
  have ⟨inside, idle⟩ := h.foreground same
  refine ⟨inside, fun ready ↦ ?_⟩
  have other := (stir.woken ready idle).1
  rw [same] at other
  exact other rfl

theorem real (here : Task.caller c ∈ t.schedule) : c < t.callers.size := by
  apply stir.present.mpr
  rcases stir.scheduled here with before | ⟨ready, idle⟩
  · exact h.real before
  · rcases (stir.woken ready idle).2.2 c rfl with ⟨w, y, found, held⟩ | ⟨w, y, found, waits, -⟩
    · obtain ⟨x, known, -⟩ := phase_of_held h.owned found held
      exact Table.lt_size known
    · obtain ⟨-, x, known, -⟩ :=
        suspended_of_lined h.owned found (List.mem_append_right _ waits)
      exact Table.lt_size known

theorem seeking (found : t.callers.get? c = some x) (phase : x.phase = .seeking) :
    t.running = some (.caller c) := by
  by_cases own : τ = .caller c
  · rcases stir.goes with runs | rests
    · exact own ▸ runs
    · exact absurd rests (stir.rested found (.inr phase) own.symm)
  · obtain ⟨old, there, stays⟩ := stir.stays own found
    rcases stays with rfl | ⟨v, r, -, rfl⟩
    · exact absurd (Option.some.inj (stir.running.symm.trans (h.seeking there phase))) own
    · exact Phase.noConfusion phase

theorem placed (found : t.workers.get? w = some z) (place : c ∈ z.mailbox.reserved) :
    t.running = some (.caller c) ∨ t.Called (.caller c) := by
  rcases stir.wakes.places c w z found place with called | ⟨y, there, before⟩
  · exact .inr called
  · rcases h.placed there before with runs | called
    · have own := Option.some.inj (runs.symm.trans stir.running)
      rcases stir.goes with goes | rests
      · exact .inl (own ▸ goes)
      · have inside : c ∈ z.mailbox.lined := List.mem_append_left _ place
        obtain ⟨-, x, known, suspended⟩ := suspended_of_lined (stir.owned h) found inside
        exact absurd place (stir.waiting rests own known suspended found).1
    · exact .inr (stir.wakes.called called)

theorem fresh (apart : c ∉ front) (fresh : t.Fresh c) : Task.caller c ∈ t.schedule :=
  stir.mem (h.fresh apart (stir.change.fresh fresh)) (stir.awake fresh)

theorem queued (less : c < d) (apart : c ∉ front) (apart' : d ∉ front) (fresh : t.Fresh c)
    (fresh' : t.Fresh d) : [Task.caller c, .caller d].Sublist t.schedule :=
  stir.before (h.queued less apart apart' (stir.change.fresh fresh) (stir.change.fresh fresh'))
    (stir.awake fresh)

theorem later (less : c < d) (known : d < t.callers.size) (apart : c ∉ front) (apart' : d ∉ front)
    (early : t.Early c) : t.Fresh d := by
  have early := stir.early h early
  have known' := stir.present.mp known
  have fresh := h.later less known' apart apart' early
  obtain ⟨x, found⟩ := Option.isSome_iff_exists.mp (Table.get?_isSome.mpr known)
  -- The one who runs is the first of those that have not been called.
  have other : τ ≠ .caller d := by
    intro own
    obtain ⟨y, there, phase⟩ := early
    rcases phase with isFresh | ⟨isSeeking, -⟩
    · have before := h.queued less apart apart' ⟨y, there, isFresh⟩ fresh
      have once := h.once
      rw [stir.schedule_eq, own] at before once
      exact not_before_head once before
    · have runs := h.seeking there isSeeking
      have same := Option.some.inj (runs.symm.trans stir.running)
      exact absurd (Task.caller.inj (same.trans own)) (Nat.ne_of_lt less)
  obtain ⟨old, there, stays⟩ := stir.stays other found
  obtain ⟨y, there', phase⟩ := fresh
  obtain rfl := Option.some.inj (there.symm.trans there')
  rcases stays with rfl | ⟨v, r, awaiting, -⟩
  · exact ⟨_, found, phase⟩
  · exact Phase.noConfusion (phase.symm.trans awaiting)

theorem unlimited (early : t.Early c) (found : t.callers.get? c = some x) : x.limit = none := by
  have early := stir.early h early
  rcases stir.change.caller found with same | ⟨old, there, moves⟩
  · exact h.unlimited early same
  · have unset := h.unlimited early there
    cases moves with
    | limit waiting =>
      refine absurd early (not_early there ?_ ?_)
      · rcases waiting with suspended | awaiting
        · simp [suspended]
        · simp [awaiting]
      · rcases waiting with suspended | awaiting
        · simp [suspended]
        · simp [awaiting]
    | _ => exact unset

theorem tickets (found : t.callers.get? c = some x) (set : x.limit = some l) :
    l.ticket < t.tickets ∧
      ∃ limit, t.policy.requestTimeout = some limit ∧ l.time ≤ t.after limit := by
  have policy : t.policy = s.policy := stir.change.later.policy
  have clock : t.now = s.now := stir.change.now
  constructor
  · have more := stir.wakes.tickets
    rcases stir.wakes.limits c x l found set with ⟨old, there, same⟩ | ⟨-, new⟩
    · exact Nat.lt_of_lt_of_le (h.tickets there same).1 more
    · exact new
  · rw [policy]
    have before {y : Caller} (there : s.callers.get? c = some y) (same : y.limit = some l) :
        ∃ limit, s.policy.requestTimeout = some limit ∧ l.time ≤ t.after limit := by
      obtain ⟨limit, limited, time⟩ := (h.tickets there same).2
      exact ⟨limit, limited, after_congr clock limit ▸ time⟩
    rcases stir.change.caller found with same | ⟨old, there, moves⟩
    · exact before same set
    · cases moves with
      | @limit v limit alarm waiting limited early due =>
        obtain rfl := Option.some.inj set
        rcases due with same | ⟨-, time⟩
        · exact before there same
        · exact ⟨limit, limited, Nat.le_of_eq (time.trans (after_congr clock limit).symm)⟩
      | _ => exact before there set

end Callers

section Mailboxes

variable (h : Orderly front s) (stir : Stir s τ t)

include h stir

theorem calm (apart : c ∉ front) (early : t.Early c) (found : t.workers.get? w = some z) :
    z.mailbox.reserved = [] := by
  have early := stir.early h early
  cases stir.change.trades found with
  | new missing capacity mailbox => rw [mailbox]
  | @old y accepted there delivers =>
    have none := h.calm apart early there
    rcases delivers.unreserved (h.sound there) none with still | ⟨own, kept⟩
    · exact still
    · -- A worker that runs while some call has not begun has been told to leave.
      obtain ⟨x, known, phase⟩ := early
      rcases phase with fresh | ⟨seeking, -⟩
      · have inside := h.fresh apart ⟨x, known, fresh⟩
        have before : [Task.worker w, .caller c].Sublist s.schedule := by
          rw [stir.schedule_eq, own] at inside ⊢
          have behind := (List.mem_cons.mp inside).resolve_left Task.noConfusion
          exact List.Sublist.cons_cons _ (List.singleton_sublist.mpr behind)
        obtain ⟨y', there', cancelled⟩ := h.cancelled apart ⟨x, known, fresh⟩ before
        obtain rfl := Option.some.inj (there.symm.trans there')
        exact absurd (kept.symm.trans cancelled) (by simp)
      · have runs := h.seeking known seeking
        have same := Option.some.inj (runs.symm.trans stir.running)
        exact Task.noConfusion (same.trans own)

theorem cancelled (apart : c ∉ front) (fresh : t.Fresh c)
    (before : [Task.worker w, .caller c].Sublist t.schedule) :
    ∃ z, t.workers.get? w = some z ∧ z.cancelled = true := by
  have was := stir.change.fresh fresh
  have inside := h.fresh apart was
  have earlier : [Task.worker w, .caller c].Sublist s.schedule := by
    obtain ⟨woken, ready, -, causes⟩ := stir.wakes.ready
    have old : Task.caller c ∉ woken := by
      intro new
      rw [stir.schedule_eq] at inside
      rcases List.mem_cons.mp inside with own | there
      · rcases (causes _ new).2.2.1 with other | rests
        · exact other own
        · exact stir.awake fresh own rests
      · exact (causes _ new).1 there
    have front : (t.running.toList ++ s.ready).Sublist s.schedule := by
      rw [stir.schedule_eq]
      rcases stir.goes with same | rests
      · rw [same]
        exact List.Sublist.refl _
      · rw [rests]
        exact List.sublist_cons_self _ _
    rw [schedule, ready, ← List.append_assoc] at before
    exact (before_of_append before old).trans front
  obtain ⟨y, found, told⟩ := h.cancelled apart was earlier
  obtain ⟨z, found', later⟩ := stir.change.later.workers w y found
  exact ⟨z, found', later.cancelled told⟩

theorem begun (accepted : c ∈ t.acceptances w) : c < t.callers.size ∧ ¬ t.Early c := by
  have old (inside : c ∈ s.line w) : c < t.callers.size ∧ ¬ t.Early c := by
    have ⟨known, offered⟩ := h.of_line inside
    exact ⟨stir.present.mpr known, fun early ↦ offered (stir.early h early)⟩
  have bare : t.acceptances w = t.bare.acceptances w := rfl
  rw [bare] at accepted
  rcases stir.change.acceptances w with same | ⟨y, e, found, queued, -, more⟩
  · rw [same] at accepted
    exact old (List.mem_append_left _ accepted)
  · rw [more] at accepted
    rcases List.mem_append.mp accepted with before | new
    · exact old (List.mem_append_left _ before)
    · obtain rfl := List.mem_singleton.mp new
      have found : s.workers.get? w = some y := found
      apply old
      rw [line_eq found]
      refine List.mem_append_right _ (List.mem_append_left _ ?_)
      exact List.mem_map.mpr ⟨e, queued, rfl⟩

theorem line (w : WorkerId) : ((t.line w).filter (t.keepsTurn front)).Pairwise (· < ·) := by
  apply filter_order fun c _ keeps ↦ stir.keepsTurn h keeps
  cases found : t.workers.get? w with
  | none =>
    have same : t.line w = s.acceptances w := by
      rw [State.line, found]
      change t.bare.acceptances w ++ [] = _
      rw [List.append_nil]
      rcases stir.change.acceptances w with same | ⟨y, e, there, -⟩
      · exact same
      · obtain ⟨z, found', -⟩ := stir.change.later.workers w y there
        exact absurd (found.symm.trans found') (by simp)
    rw [same]
    exact (h.line w).sublist ((List.sublist_append_left _ _).filter _)
  | some z =>
    rw [line_eq found]
    cases stir.change.trades found with
    | new missing capacity mailbox acceptances =>
      have same : t.acceptances w = s.acceptances w := acceptances
      rw [mailbox, same]
      change ((s.acceptances w ++ []).filter _).Pairwise _
      rw [List.append_nil]
      exact (h.line w).sublist ((List.sublist_append_left _ _).filter _)
    | @old y accepted there delivers acceptances =>
      have same : t.acceptances w = s.acceptances w ++ accepted := acceptances
      have there : s.workers.get? w = some y := there
      have sorted := h.line w
      rw [line_eq there] at sorted
      rw [same]
      refine delivers.line (h.sound there) (s.keepsTurn front) sorted ?_ ?_
      · intro c x own offers keeps
        refine ⟨h.unreserved offers keeps there, fun e inside keeps' ↦ ?_⟩
        rw [← line_eq there] at inside
        exact h.last offers keeps inside keeps'
      · intro c own place keeps b place' keeps'
        apply Nat.le_of_not_lt
        intro less
        have before := (h.turns there less keeps' keeps (List.mem_append_left _ place')
          (List.mem_append_left _ place) (.inr place)).1
        have once := h.once
        rw [stir.schedule_eq, own] at before once
        exact not_before_head once before

end Mailboxes

end Stir

/-- A caller that waits for a place before and after a change has at most learned when it will give
up. -/
structure Lingers (s t : State) (τ : Task) (c : CallerId) (w : WorkerId) (old x : Caller) : Prop where
  before : s.callers.get? c = some old
  suspended : old.phase = .suspended w
  after : t.callers.get? c = some x
  workers : τ = .caller c → t.workers = s.workers
  limit : x = old ∨ τ = .caller c ∧ ∃ alarm, x = { old with limit := some alarm } ∧
    s.now < alarm.time ∧ (old.limit = some alarm ∨ old.limit = none ∧
      ∃ limit, s.policy.requestTimeout = some limit ∧ alarm.time = s.after limit)

namespace Lingers

/-- A caller keeps its limit once it has one. -/
theorem limit_eq (lingers : Lingers s t τ c w old x) (set : old.limit = some l) :
    x.limit = some l := by
  rcases lingers.limit with same | ⟨-, alarm, same, -, kept | ⟨unset, -⟩⟩
  · rw [same, set]
  · rw [same, ← kept, set]
  · exact absurd (set.symm.trans unset) (by simp)

/-- A caller whose time is over has had its limit before. -/
theorem due (lingers : Lingers s t τ c w old x) (clock : t.now = s.now) (due : t.Due c) :
    s.Due c := by
  obtain ⟨y, l, found, set, late⟩ := due
  obtain rfl := Option.some.inj (found.symm.trans lingers.after)
  rcases lingers.limit with same | ⟨-, alarm, same, early, -⟩
  · exact ⟨old, l, lingers.before, same ▸ set, clock ▸ late⟩
  · rw [same] at set
    obtain rfl := Option.some.inj set
    exact absurd (clock ▸ late) (Nat.not_le.mpr early)

end Lingers

namespace Stir

section Lines

variable (h : Orderly front s) (stir : Stir s τ t)

include h stir

/-- Who is in line before and after a change has not moved otherwise. -/
theorem lingers (found : t.workers.get? w = some z) (inside : c ∈ z.mailbox.lined)
    (found' : s.workers.get? w = some y) (before : c ∈ y.mailbox.lined) :
    ∃ old x, Lingers s t τ c w old x := by
  obtain ⟨-, old, there, was⟩ := suspended_of_lined h.owned found' before
  obtain ⟨-, x, there', is⟩ := suspended_of_lined (stir.owned h) found inside
  by_cases own : τ = .caller c
  · have change := stir.change
    rw [own] at change
    obtain ⟨workers, limit⟩ := change.lingers there was there' is
    exact ⟨old, x, there, was, there', fun _ ↦ workers, limit.imp id fun learned ↦ ⟨own, learned⟩⟩
  · obtain ⟨old', there'', stays⟩ := stir.stays own there'
    obtain rfl := Option.some.inj (there.symm.trans there'')
    refine ⟨old, x, there, was, there', fun same ↦ absurd same own, .inl ?_⟩
    rcases stays with same | ⟨v, r, awaiting, -⟩
    · exact same
    · exact Phase.noConfusion (was.symm.trans awaiting)

/-- A caller that keeps its turn and has a place, or whose time is over, does not rest. -/
theorem hurries (found : t.workers.get? w = some z) (inside : c ∈ z.mailbox.lined)
    (keeps : t.keepsTurn front c = true) (urgent : c ∈ z.mailbox.reserved ∨ t.Due c)
    (own : Task.caller c = τ) : t.running ≠ none := by
  intro rests
  obtain ⟨-, x, there, suspended⟩ := suspended_of_lined (stir.owned h) found inside
  obtain ⟨placeless, patient⟩ := stir.waiting rests own there suspended found
  rcases urgent with place | ⟨x', l, there', set, late⟩
  · exact placeless place
  · obtain rfl := Option.some.inj (there.symm.trans there')
    obtain ⟨-, x', there', direct, -⟩ := keepsTurn_iff.mp keeps
    obtain rfl := Option.some.inj (there.symm.trans there')
    obtain ⟨limit, limited, -⟩ := (stir.tickets h there set).2
    obtain ⟨alarm, set', early⟩ := patient direct limit limited
    obtain rfl := Option.some.inj (set.symm.trans set')
    exact absurd late (Nat.not_le.mpr early)

/-- Whoever has a place, or has waited too long, still does unless it goes on. -/
theorem urgent (found : t.workers.get? w = some z) (inside : c ∈ z.mailbox.lined)
    (found' : s.workers.get? w = some y) (before : c ∈ y.mailbox.lined)
    (urgent : c ∈ y.mailbox.reserved ∨ s.Due c) : c ∈ z.mailbox.reserved ∨ t.Due c := by
  obtain ⟨old, x, lingers⟩ := stir.lingers h found inside found' before
  rcases urgent with place | ⟨old', l, there, set, late⟩
  · left
    by_cases own : τ = .caller c
    · rw [lingers.workers own, found'] at found
      exact Option.some.inj found ▸ place
    · cases stir.change.trades found with
      | new missing capacity mailbox =>
        rw [mailbox] at inside
        exact absurd inside List.not_mem_nil
      | old there delivers =>
        obtain rfl := Option.some.inj (found'.symm.trans there)
        exact delivers.reserved own place inside
  · right
    obtain rfl := Option.some.inj (lingers.before.symm.trans there)
    have clock : t.now = s.now := stir.change.now
    exact ⟨x, l, lingers.after, lingers.limit_eq set, clock ▸ late⟩

/-- Who keeps its turn is not in the foreground. -/
theorem apart (keeps : t.keepsTurn front c = true) : t.foreground ≠ some c :=
  fun foremost ↦ (keepsTurn_iff.mp keeps).1 (stir.foreground h foremost).1

/-- Who keeps its turn and can go on was in line before. -/
theorem lined_before (found : t.workers.get? w = some z) (inside : c ∈ z.mailbox.lined)
    (keeps : t.keepsTurn front c = true)
    (next : Task.caller c ∈ t.ready ∨ c ∈ z.mailbox.reserved) :
    ∃ y, s.workers.get? w = some y ∧ c ∈ y.mailbox.lined := by
  rcases stir.lined found inside with before | ⟨own, old, offers⟩
  · exact before
  · exfalso
    have once := h.once
    rw [stir.schedule_eq, own] at once
    have idle := (List.nodup_cons.mp once).1
    have quiet (ready : Task.caller c ∈ t.ready) : False := by
      have rouses := (stir.woken ready idle).2.2 c rfl
      exact (rouses.granted h.owned stir found inside).1 own
    rcases next with ready | place
    · exact quiet ready
    · rcases stir.wakes.places c w z found place with called | ⟨y, there, place'⟩
      · exact quiet (called.ready (stir.apart h keeps))
      · obtain ⟨-, x, known, suspended⟩ :=
          suspended_of_lined h.owned there (List.mem_append_left _ place')
        obtain rfl := Option.some.inj (known.symm.trans offers.found)
        exact Phase.noConfusion (suspended.symm.trans offers.seeking)

/-- A caller that keeps its turn and was called before one in line was in line before it. -/
theorem ahead_before (found : t.workers.get? w = some z) (less : b < c)
    (keeps : t.keepsTurn front b = true) (keeps' : t.keepsTurn front c = true)
    (inside : b ∈ z.mailbox.lined) (found' : s.workers.get? w = some y)
    (before : c ∈ y.mailbox.lined) : b ∈ y.mailbox.lined := by
  rcases stir.lined found inside with ⟨y', there, early⟩ | ⟨-, old, offers⟩
  · obtain rfl := Option.some.inj (found'.symm.trans there)
    exact early
  · have line : c ∈ s.line w := by
      rw [line_eq found']
      exact List.mem_append_right _ (List.mem_append_right _ before)
    have more := h.last offers (stir.keepsTurn h keeps) line (stir.keepsTurn h keeps')
    exact absurd less (Nat.lt_asymm more)

/-- A caller that has just come to a mailbox has no limit yet. -/
theorem unset (found : t.workers.get? w = some z) (inside : c ∈ z.mailbox.lined)
    (keeps : t.keepsTurn front c = true) (offers : Offers s.bare c old v)
    (known : t.callers.get? c = some x) : x.limit = none := by
  obtain ⟨-, x', known', suspended⟩ := suspended_of_lined (stir.owned h) found inside
  obtain rfl := Option.some.inj (known.symm.trans known')
  obtain ⟨-, old', there, -, full, -⟩ := keepsTurn_iff.mp (stir.keepsTurn h keeps)
  obtain rfl := Option.some.inj (there.symm.trans offers.found)
  have same := stir.change.joined offers.found offers.seeking known suspended
  exact same.trans (h.unlimited ⟨old', there, .inr ⟨offers.seeking, full⟩⟩ there)

theorem turns (found : t.workers.get? w = some z) (less : b < c)
    (keeps : t.keepsTurn front b = true) (keeps' : t.keepsTurn front c = true)
    (inside : b ∈ z.mailbox.lined) (inside' : c ∈ z.mailbox.lined)
    (next : Task.caller c ∈ t.ready ∨ c ∈ z.mailbox.reserved) :
    [Task.caller b, .caller c].Sublist t.schedule ∧ (b ∈ z.mailbox.reserved ∨ t.Due b) := by
  obtain ⟨y, there, before'⟩ := stir.lined_before h found inside' keeps' next
  have before := stir.ahead_before h found less keeps keeps' inside there before'
  have was := stir.keepsTurn h keeps
  have was' := stir.keepsTurn h keeps'
  by_cases early : Task.caller c ∈ s.ready ∨ c ∈ y.mailbox.reserved
  · obtain ⟨pair, urgent⟩ := h.turns there less was was' before before' early
    have urgent := stir.urgent h found inside there before urgent
    exact ⟨stir.before pair (stir.hurries h found inside keeps urgent), urgent⟩
  · have idle : Task.caller c ∉ s.ready := fun ready ↦ early (.inl ready)
    have placeless : c ∉ y.mailbox.reserved := fun place ↦ early (.inr place)
    have ready : Task.caller c ∈ t.ready := by
      rcases next with ready | place
      · exact ready
      · rcases stir.wakes.places c w z found place with called | ⟨y', there', place'⟩
        · exact called.ready (stir.apart h keeps')
        · obtain rfl := Option.some.inj (there.symm.trans there')
          exact absurd place' placeless
    have rouses := (stir.woken ready idle).2.2 c rfl
    obtain ⟨-, place, -⟩ := rouses.granted h.owned stir found inside'
    -- The places are given out in line, so whoever was called before has one already.
    have place' : b ∈ y.mailbox.reserved := by
      rcases List.mem_append.mp before with reserved | waits
      · exact reserved
      · exfalso
        have other : τ ≠ .caller b := by
          intro own
          obtain ⟨old, x, lingers⟩ := stir.lingers h found inside there before
          rw [lingers.workers own, there] at found
          exact placeless (Option.some.inj found ▸ place)
        cases stir.change.trades found with
        | new missing capacity mailbox =>
          rw [mailbox] at inside
          exact absurd inside List.not_mem_nil
        | old there' delivers =>
          obtain rfl := Option.some.inj (there.symm.trans there')
          have overtakes := delivers.granted place placeless waits (Nat.ne_of_lt less) other
          have pair : [c, b].Sublist ((s.line w).filter (s.keepsTurn front)) := by
            have kept : [c, b] = [c, b].filter (s.keepsTurn front) := by simp [was, was']
            rw [kept, line_eq there]
            refine (overtakes.trans ?_).filter _
            exact ((List.sublist_append_right _ _).trans (List.sublist_append_right _ _)).trans
              (List.sublist_append_right _ _)
          have more := List.pairwise_iff_forall_sublist.mp (h.line w) pair
          exact absurd less (Nat.lt_asymm more)
    have urgent := stir.urgent h found inside there before (.inl place')
    have here := h.scheduled there place' was
    exact ⟨stir.behind here (stir.hurries h found inside keeps urgent) ready idle, urgent⟩

theorem due (found : t.workers.get? w = some z) (inside : c ∈ z.mailbox.lined)
    (keeps : t.keepsTurn front c = true) (due : t.Due c) : Task.caller c ∈ t.schedule := by
  have clock : t.now = s.now := stir.change.now
  rcases stir.lined found inside with ⟨y, there, before⟩ | ⟨-, old, offers⟩
  · obtain ⟨old, x, lingers⟩ := stir.lingers h found inside there before
    have here := h.due there before (stir.keepsTurn h keeps) (lingers.due clock due)
    exact stir.mem here (stir.hurries h found inside keeps (.inr due))
  · exfalso
    obtain ⟨x, l, known, set, -⟩ := due
    exact absurd (set.symm.trans (stir.unset h found inside keeps offers known)) (by simp)

theorem limited (found : t.workers.get? w = some z) (inside : c ∈ z.mailbox.lined)
    (keeps : t.keepsTurn front c = true) (waits : t.running ≠ some (.caller c))
    (known : t.callers.get? c = some x) {limit : Nat}
    (bound : t.policy.requestTimeout = some limit) : ∃ l, x.limit = some l := by
  obtain ⟨-, x', known', suspended⟩ := suspended_of_lined (stir.owned h) found inside
  obtain rfl := Option.some.inj (known.symm.trans known')
  by_cases own : τ = .caller c
  · have rests := stir.goes.resolve_left fun runs ↦ waits (own ▸ runs)
    obtain ⟨-, patient⟩ := stir.waiting rests own.symm known suspended found
    obtain ⟨-, x', known', direct, -⟩ := keepsTurn_iff.mp keeps
    obtain rfl := Option.some.inj (known.symm.trans known')
    obtain ⟨alarm, set, -⟩ := patient direct limit bound
    exact ⟨alarm, set⟩
  · rcases stir.lined found inside with ⟨y, there, before⟩ | ⟨own', -⟩
    · obtain ⟨old, x', lingers⟩ := stir.lingers h found inside there before
      obtain rfl := Option.some.inj (known.symm.trans lingers.after)
      have others : s.running ≠ some (.caller c) := by
        rw [stir.running]
        exact fun same ↦ own (Option.some.inj same)
      have policy : t.policy = s.policy := stir.change.later.policy
      obtain ⟨l, set⟩ := h.limited there before (stir.keepsTurn h keeps) others lingers.before
        (policy ▸ bound)
      exact ⟨l, lingers.limit_eq set⟩
    · exact absurd own' own

theorem limits (found : t.workers.get? w = some z) (less : b < c)
    (keeps : t.keepsTurn front b = true) (keeps' : t.keepsTurn front c = true)
    (inside : b ∈ z.mailbox.lined) (inside' : c ∈ z.mailbox.lined)
    (known : t.callers.get? c = some x) (set : x.limit = some l) :
    ∃ x' l', t.callers.get? b = some x' ∧ x'.limit = some l' ∧ l'.time ≤ l.time ∧
      l'.ticket < l.ticket := by
  have was := stir.keepsTurn h keeps
  have was' := stir.keepsTurn h keeps'
  rcases stir.lined found inside' with ⟨y, there, before'⟩ | ⟨-, old, offers⟩
  · have before := stir.ahead_before h found less keeps keeps' inside there before'
    obtain ⟨first, first', lingers⟩ := stir.lingers h found inside there before
    obtain ⟨old, x', lingers'⟩ := stir.lingers h found inside' there before'
    obtain rfl := Option.some.inj (known.symm.trans lingers'.after)
    have earlier (set : old.limit = some l) : ∃ x' l', t.callers.get? b = some x' ∧
        x'.limit = some l' ∧ l'.time ≤ l.time ∧ l'.ticket < l.ticket := by
      obtain ⟨x', l', known', set', time, ticket⟩ :=
        h.limits there less was was' before before' lingers'.before set
      obtain rfl := Option.some.inj (known'.symm.trans lingers.before)
      exact ⟨first', l', lingers.after, lingers.limit_eq set', time, ticket⟩
    rcases lingers'.limit with same | ⟨own, alarm, same, -, due⟩
    · exact earlier (same ▸ set)
    · have alarmed : alarm = l := by
        rw [same] at set
        exact Option.some.inj set
      subst alarmed
      rcases due with set | ⟨unset, limit, bound, time⟩
      · exact earlier set
      · -- The limit is new, and whoever was called before has one that was set before.
        have others : s.running ≠ some (.caller b) := by
          rw [stir.running, own]
          exact fun same ↦ absurd (Task.caller.inj (Option.some.inj same)) (Nat.ne_of_gt less)
        obtain ⟨l', set'⟩ := h.limited there before was others lingers.before bound
        obtain ⟨ticket, limit', bound', time'⟩ := h.tickets lingers.before set'
        obtain rfl := Option.some.inj (bound.symm.trans bound')
        refine ⟨first', l', lingers.after, lingers.limit_eq set', time ▸ time', ?_⟩
        rcases stir.wakes.limits c x alarm known set with ⟨old', known', set''⟩ | ⟨low, -⟩
        · obtain rfl := Option.some.inj (lingers'.before.symm.trans known')
          exact absurd (unset.symm.trans set'') (by simp)
        · exact Nat.lt_of_lt_of_le ticket low
  · exact absurd (set.symm.trans (stir.unset h found inside' keeps' offers known)) (by simp)

/-- What the running task does leaves everyone their turn. -/
theorem orderly : Orderly front t where
  owned := stir.owned h
  sound := stir.sound h
  tries := stir.tries h
  once := stir.once h.once
  foreground := stir.foreground h
  known := fun inside ↦ stir.present.mpr (h.known inside)
  real := stir.real h
  seeking := stir.seeking h
  placed := stir.placed h
  fresh := stir.fresh h
  queued := stir.queued h
  later := stir.later h
  calm := fun apart early _ _ found ↦ stir.calm h apart early found
  cancelled := stir.cancelled h
  begun := stir.begun h
  line := stir.line h
  turns := stir.turns h
  limits := stir.limits h
  limited := fun found inside keeps waits known bound ↦
    stir.limited h found inside keeps waits known bound
  tickets := stir.tickets h
  unlimited := stir.unlimited h
  due := stir.due h

end Lines

end Stir

/-- Whatever the running task does in one step leaves everyone their turn. -/
theorem Stirs.orderly (h : Orderly front s) (stirs : Stirs τ s t) : Orderly front t := by
  induction stirs with
  | refl => exact h
  | tail _ stir ih => exact stir.orderly ih

/-- The next task in the schedule begins to run. -/
theorem Orderly.next (h : Orderly front s) {ready : List Task} (rests : s.running = none)
    (queue : s.ready = τ :: ready) : Orderly front { s with ready, running := some τ } := by
  have same : ({ s with ready, running := some τ } : State).schedule = s.schedule := by
    rw [schedule, schedule, rests, queue]
    rfl
  have fewer : ready ⊆ s.ready := by
    rw [queue]
    exact List.subset_cons_self _ _
  exact { h with
    once := same ▸ h.once
    foreground := fun foremost ↦ (h.foreground foremost).imp id fun idle ready ↦ idle (fewer ready)
    seeking := fun found seeking ↦ absurd (rests.symm.trans (h.seeking found seeking)) (by simp)
    placed := fun {w y c} found place ↦ by
      rcases h.placed found place with runs | inside | foremost
      · exact absurd (rests.symm.trans runs) (by simp)
      · rw [queue] at inside
        rcases List.mem_cons.mp inside with first | later
        · exact .inl (congrArg some first.symm)
        · exact .inr (.inl later)
      · exact .inr (.inr foremost)
    real := fun here ↦ h.real (same ▸ here)
    fresh := fun apart fresh ↦ same ▸ h.fresh apart fresh
    queued := fun less apart apart' fresh fresh' ↦ same ▸ h.queued less apart apart' fresh fresh'
    cancelled := fun apart fresh before ↦ h.cancelled apart fresh (same ▸ before)
    turns := fun found less keeps keeps' inside inside' next ↦ by
      have next := next.imp (fun ready ↦ fewer ready) id
      exact same ▸ h.turns found less keeps keeps' inside inside' next
    limited := fun found inside keeps waits known bound ↦
      h.limited found inside keeps (by simp [rests]) known bound
    due := fun found inside keeps due ↦ same ▸ h.due found inside keeps due }

/-- A caller in the foreground begins to run. -/
theorem Orderly.lead (h : Orderly front s) (rests : s.running = none) (inside : c ∈ front)
    (idle : Task.caller c ∉ s.ready) (only : ∀ d, s.foreground = some d → d = c)
    (summoned : Bool) :
    Orderly front
      { s with running := some (.caller c), foreground := some c, isSummoned := summoned } := by
  have same : s.schedule = s.ready := by
    rw [schedule, rests]
    rfl
  have more : s.schedule.Sublist (.caller c :: s.ready) := same ▸ List.sublist_cons_self _ _
  exact { h with
    once := List.nodup_cons.mpr ⟨idle, same ▸ h.once⟩
    foreground := fun foremost ↦ Option.some.inj foremost ▸ ⟨inside, idle⟩
    seeking := fun found seeking ↦ absurd (rests.symm.trans (h.seeking found seeking)) (by simp)
    placed := fun {w y d} found place ↦ by
      rcases h.placed found place with runs | called
      · exact absurd (rests.symm.trans runs) (by simp)
      · by_cases own : s.foreground = some d
        · exact .inl (congrArg (some ∘ Task.caller) (only d own).symm)
        · exact .inr (.inl (called.ready own))
    real := fun {d} here ↦ by
      have here : Task.caller d ∈ Task.caller c :: s.ready := here
      rcases List.mem_cons.mp here with own | later
      · exact (Task.caller.inj own).symm ▸ h.known inside
      · exact h.real (same.symm ▸ later)
    fresh := fun apart fresh ↦ more.subset (h.fresh apart fresh)
    queued := fun less apart apart' fresh fresh' ↦
      (h.queued less apart apart' fresh fresh').trans more
    cancelled := fun {w d} apart fresh before ↦ by
      have before : [Task.worker w, .caller d].Sublist (.caller c :: s.ready) := before
      rcases List.sublist_cons_iff.mp before with later | ⟨rest, first, -⟩
      · exact h.cancelled apart fresh (same.symm ▸ later)
      · exact Task.noConfusion (List.cons.inj first).1
    turns := fun found less keeps keeps' inside inside' next ↦
      (h.turns found less keeps keeps' inside inside' next).imp (fun pair ↦ pair.trans more) id
    limited := fun found inside keeps waits known bound ↦
      h.limited found inside keeps (by simp [rests]) known bound
    due := fun found inside keeps due ↦ more.subset (h.due found inside keeps due) }

/-- Every step leaves everyone their turn. -/
theorem Orderly.step (h : Orderly front s) (taken : s.step = some t) : Orderly front t := by
  cases running : s.running with
  | some τ => exact (step_stirs running taken).orderly h
  | none =>
    unfold State.step at taken
    rw [running] at taken
    dsimp only at taken
    split at taken
    next τ ready queue => exact Option.some.inj taken ▸ h.next running queue
    next empty =>
      split at taken
      next c foremost =>
        split at taken
        next =>
          obtain rfl := Option.some.inj taken
          have leads := h.lead (c := c) running (h.foreground foremost).1
            (h.foreground foremost).2 (fun d same ↦ Option.some.inj (same.symm.trans foremost)) false
          rw [← foremost] at leads
          exact leads
        next => exact absurd taken (by simp)
      next => exact absurd taken (by simp)

end Signatory.Service.State
