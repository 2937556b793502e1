import Signatory.Proofs.Service.Removal
import Signatory.Proofs.Service.Routing

/-!
# Calls and what they count for

A call is told that there is no worker for its key if three workers have given its request back, or
if the directory names none and its request creates none. Such answers are counted once each,
together with the removals that find no worker, and every call that begins is counted once, however
often its request is offered.
-/

namespace Signatory.Service

/-- What an event tells about the calls that begin. -/
def Event.beginning? : Event → Option CallerId
  | .dispatched c => some c
  | _ => none

/-- What an event tells about the calls for which there is no worker. -/
def Event.missing? : Event → Option CallerId
  | .ended c (.result (.error (.notFound _))) => some c
  | _ => none

namespace State

variable {s t u : State} {τ : Task} {w : WorkerId} {c d : CallerId} {x old : Caller} {key : String}
  {n : Nat}

section Telling

/-- A caller whose call ends is told how. -/
theorem phase_of_conclude {ending : Ending} {y : Caller}
    (here : (s.conclude c ending).callers.get? c = some y) : y.phase = .ended ending := by
  have here : (s.callers.update c fun x ↦ { x with phase := .ended ending }).get? c = some y := here
  obtain ⟨old, -, rfl⟩ := Table.of_update_self here
  rfl

/-- A call ends because there is no worker if three have given its request back, or if the directory
names none and its request creates none. -/
theorem Ends.told (h : s.Routing) (known : s.callers.get? c = some x)
    (ends : Ends s c x (.result (.error (.notFound key)))) :
    s.Exhausted c ∨
      s.isShutDown = false ∧ s.find? x.key = none ∧ x.request.createsWorker = false := by
  cases ends with
  | notFound seeking direct cause =>
    refine cause.imp_left fun last ↦ ?_
    have was := h.routed known
    obtain ⟨count, given⟩ := was.free (by rw [seeking]; rfl) (by rw [seeking]; rfl)
    exact ⟨by omega, was.distinct, given⟩
  | concludes cause => cases cause with
    | result replied => exact (h.answers known replied).elim
  | givesUp live cause => cases cause

/-- A caller that is offered to a worker is not told that there is none. -/
theorem offer_found (offers : s.bare.Offers c x w) (indirect : x.direct = none)
    {y : Caller} (here : (s.offer c x w).callers.get? c = some y) :
    y.phase ≠ .ended (.result (.error (.notFound key))) := by
  intro past
  have seeking := offers.seeking
  obtain ⟨old, known, ends⟩ := (offer_change offers).ends here past
  obtain rfl := Option.some.inj (offers.found.symm.trans known)
  rcases ends with was | ends
  · exact absurd (seeking.symm.trans was) (by simp)
  rcases offers.target with direct | ⟨-, tries, -, named⟩
  · exact absurd (indirect.symm.trans direct) (by simp)
  cases ends with
  | notFound _ _ cause =>
    rcases cause with last | ⟨-, vacant, -⟩
    · exact tries last
    · exact absurd (vacant.symm.trans named) (by simp)
  | concludes cause => cases cause with
    | result replied => exact absurd (seeking.symm.trans replied) (by simp)
  | givesUp live cause => cases cause

/-- A caller for which a worker is created is not told that there is none. -/
theorem offerNew_found {y : Caller} (here : (s.offerNew c x).callers.get? c = some y) :
    y.phase ≠ .ended (.result (.error (.notFound key))) := by
  unfold offerNew at here
  split at here
  next => simp [phase_of_conclude here]
  next =>
    have awaiting := (offer_spawn s c x).2.1
    have here : ((s.spawn x.key).2.offer c x s.workers.size).bare.callers.get? c = some y := here
    rw [awaiting] at here
    obtain ⟨old, -, rfl⟩ := Table.of_update_self here
    simp

/-- A caller that looks for a worker is told that there is none because it has looked for three, or
because the directory names none and its request creates none. -/
theorem seek_missing (known : s.callers.get? c = some x) (seeking : x.phase = .seeking)
    (indirect : x.direct = none) {y : Caller} (here : (s.seek c x).callers.get? c = some y)
    (past : y.phase = .ended (.result (.error (.notFound key)))) :
    x.tries = 0 ∨
      s.isShutDown = false ∧ s.find? x.key = none ∧ x.request.createsWorker = false := by
  unfold seek at here
  split at here
  next last => exact .inl last
  next tries =>
    split at here
    next => exact absurd ((phase_of_conclude here).symm.trans past) (by simp)
    next serving =>
      rw [Bool.not_eq_true] at serving
      split at here
      next w named =>
        split at here
        next => exact absurd past (offerNew_found here)
        next =>
          refine absurd past (offer_found ?_ indirect here)
          exact ⟨known, seeking, .inr ⟨indirect, tries, serving, named⟩⟩
      next vacant =>
        split at here
        next => exact absurd past (offerNew_found here)
        next barren => exact .inr ⟨serving, vacant, Bool.not_eq_true _ ▸ barren⟩

/-- A call is told that there is no worker because three have given its request back, or because the
directory names none and its request creates none. -/
theorem Reachable.told (h : s.Reachable) (next : Next s t)
    (known : s.callers.get? c = some x) (live : x.phase.isEnded = false) {y : Caller}
    (here : t.callers.get? c = some y)
    (past : y.phase = .ended (.result (.error (.notFound key)))) :
    s.bare.Exhausted c ∨
      s.isShutDown = false ∧ s.find? x.key = none ∧ x.request.createsWorker = false := by
  have routing := h.routing
  have indirect := h.ordered.filed.indirect known
  have still (same : t.callers.get? c = s.callers.get? c) : False := by
    obtain rfl := Option.some.inj (here.symm.trans (same.trans known))
    exact absurd (live.symm.trans (congrArg Phase.isEnded past)) (by simp [Phase.isEnded])
  have ended {τ : Task} (change : Change s.bare τ t.bare) :
      s.bare.Exhausted c ∨
        s.isShutDown = false ∧ s.find? x.key = none ∧ x.request.createsWorker = false := by
    obtain ⟨old, known', ends⟩ := change.ends here past
    obtain rfl := Option.some.inj (known.symm.trans known')
    rcases ends with was | ends
    · exact absurd (live.symm.trans (congrArg Phase.isEnded was)) (by simp [Phase.isEnded])
    · exact ends.told routing known
  rcases next.step_or_use with taken | use
  · cases running : s.running with
    | none =>
      rcases step_changes taken with ⟨τ, running', -⟩ | same
      · exact absurd (running.symm.trans running') (by simp)
      · have same : t.bare.callers = s.bare.callers := by rw [same]
        exact (still (congrArg (Table.get? · c) same)).elim
    | some τ =>
      by_cases own : τ = .caller c ∧ x.phase = .seeking
      · obtain ⟨rfl, seeking⟩ := own
        unfold State.step at taken
        rw [running] at taken
        obtain rfl := Option.some.inj taken
        unfold stepCaller at here
        simp only [known, seeking, Phase.isEnded, Bool.false_eq_true, if_false, indirect] at here
        split at here
        next => exact absurd ((phase_of_conclude here).symm.trans past) (by simp)
        next =>
          have cause := seek_missing known seeking indirect here past
          exact (Ends.notFound (s := s.bare) seeking indirect cause).told routing known
      · by_cases other : ∃ d, τ = .caller d ∧ d ≠ c
        · obtain ⟨d, rfl, other⟩ := other
          exact (still ((step_stirs running taken).changes.callers_of_caller other)).elim
        · refine ended (h.change_of_step running taken fun d z is known' seeking ↦ ?_)
          by_cases same : d = c
          · subst same
            exact own ⟨is, Option.some.inj (known'.symm.trans known) ▸ seeking⟩
          · exact other ⟨d, is, same⟩
  · obtain ⟨old, known', was⟩ := use.ends here past
    obtain rfl := Option.some.inj (known.symm.trans known')
    exact absurd (live.symm.trans (congrArg Phase.isEnded was)) (by simp [Phase.isEnded])

end Telling

section Counting

/-- The calls that have begun, the latest first. -/
def begun (s : State) : List CallerId :=
  s.events.filterMap Event.beginning?

/-- The calls for which there was no worker, the latest first. -/
def unfound (s : State) : List CallerId :=
  s.events.filterMap Event.missing?

/-- A call is over if its end is recorded. -/
def Concluded (s : State) : Prop :=
  ∀ c ending, .ended c ending ∈ s.events ↔
    ∃ x, s.callers.get? c = some x ∧ x.phase = .ended ending

/-- What the counts say of the calls that have begun and of those for which there was no worker, if
so many removals have found none. -/
structure Counted (s : State) (missed : Nat) : Prop where
  dispatched : s.stats.dispatched = s.begun.length
  once : s.begun.Nodup
  notFound : s.stats.notFound = s.unfound.length + missed
  single : s.unfound.Nodup
  fresh : ∀ {c x}, s.callers.get? c = some x → x.phase = .fresh → x.tries = 3
  known : ∀ {c}, c ∈ s.begun → ∃ x, s.callers.get? c = some x ∧ x.phase ≠ .fresh
  begins : ∀ {c x}, s.callers.get? c = some x → x.phase ≠ .fresh →
    c ∈ s.begun ∨ x.phase = .ended .withdrawn ∧ s.tried c = []
  concluded : s.Concluded

/-- A call has begun if that is recorded. -/
theorem mem_begun : c ∈ s.begun ↔ .dispatched c ∈ s.events := by
  rw [begun, List.mem_filterMap]
  constructor
  · rintro ⟨event, recorded, told⟩
    unfold Event.beginning? at told
    split at told
    next => exact Option.some.inj told ▸ recorded
    next => exact absurd told (by simp)
  · exact fun recorded ↦ ⟨_, recorded, rfl⟩

/-- There was no worker for a call if that is recorded. -/
theorem mem_unfound : c ∈ s.unfound ↔
    ∃ key, .ended c (.result (.error (.notFound key))) ∈ s.events := by
  rw [unfound, List.mem_filterMap]
  constructor
  · rintro ⟨event, recorded, told⟩
    unfold Event.missing? at told
    split at told
    next => exact ⟨_, Option.some.inj told ▸ recorded⟩
    next => exact absurd told (by simp)
  · rintro ⟨key, recorded⟩
    exact ⟨_, recorded, rfl⟩

/-- A call that comes to end is recorded as ended. -/
theorem Change.concludes {ending : Ending} (change : Change s τ t)
    (here : t.callers.get? c = some x) (past : x.phase = .ended ending) :
    (∃ old, s.callers.get? c = some old ∧ old.phase = .ended ending) ∨
      .ended c ending ∈ t.events := by
  by_cases own : τ = .caller c
  case neg =>
    obtain ⟨old, found, rfl | ⟨w, r, -, rfl⟩⟩ := change.stays own here
    · exact .inl ⟨_, found, past⟩
    · exact absurd past (by simp)
  subst own
  cases change with
  | rest => exact .inl ⟨x, here, past⟩
  | spawn => exact .inl ⟨x, here, past⟩
  | begin found => exact absurd past (by rw [← Table.eq_of_set found here]; simp)
  | beginDirect found => exact absurd past (by rw [← Table.eq_of_set found here]; simp)
  | push offers => exact absurd past (by rw [← Table.eq_of_set offers.found here]; simp)
  | suspend offers => exact absurd past (by rw [← Table.eq_of_set offers.found here]; simp)
  | refuse offers => exact absurd past (by rw [← Table.eq_of_set offers.found here]; simp)
  | occupy known => exact absurd past (by rw [← Table.eq_of_set known here]; simp)
  | turnAway found => exact absurd past (by rw [← Table.eq_of_set found here]; simp)
  | retry found => exact absurd past (by rw [← Table.eq_of_set found here]; simp)
  | limit found =>
    rw [← Table.eq_of_set found here] at past
    exact .inl ⟨_, found, past⟩
  | refuseDirect offers =>
    rw [← Table.eq_of_set offers.found here] at past
    exact .inr (Phase.ended.inj past ▸ List.mem_cons_self)
  | conclude found | notFound found | lose found | giveUp found | withdraw found =>
    rw [← Table.eq_of_set found here] at past
    exact .inr (Phase.ended.inj past ▸ List.mem_cons_self)

/-- A call whose end has just been recorded was not over, and is. -/
theorem Change.ended {ending : Ending} (change : Change s τ t)
    (new : .ended c ending ∈ t.events) :
    .ended c ending ∈ s.events ∨
      (∃ old, s.callers.get? c = some old ∧ old.phase.isEnded = false) ∧
        ∃ x, t.callers.get? c = some x ∧ x.phase = .ended ending := by
  have last {d : CallerId} {old : Caller} {e : Ending} (found : s.callers.get? d = some old)
      (live : old.phase.isEnded = false) {earlier : List Event}
      (new : .ended c ending ∈ .ended d e :: earlier) :
      .ended c ending ∈ earlier ∨
        (∃ old, s.callers.get? c = some old ∧ old.phase.isEnded = false) ∧
        ∃ x, (s.callers.set d { old with phase := .ended e }).get? c = some x ∧
          x.phase = .ended ending := by
    rcases List.mem_cons.mp new with same | before
    · obtain ⟨rfl, rfl⟩ := Event.ended.inj same
      exact .inr ⟨⟨old, found, live⟩, _, Table.get?_set_self found, rfl⟩
    · exact .inl before
  cases change with
  | leave => exact .inl (by simpa using mem_events_leave.mp new)
  | refuseDirect offers =>
    have seeking := offers.seeking
    exact (last offers.found (by rw [seeking]; rfl) new).imp_left (by simp [events])
  | conclude found cause => exact last found cause.live new
  | notFound found seeking => exact last found (by rw [seeking]; rfl) new
  | lose found replied => exact last found (by rw [replied]; rfl) new
  | giveUp found live => exact last found live new
  | withdraw found suspended => exact last found (by rw [suspended]; rfl) new
  | _ => exact .inl (by simpa [events] using new)

/-- Every call that comes to end is recorded, and no other. -/
theorem Change.concluded (h : s.Concluded) (change : Change s τ t) : t.Concluded := by
  intro c ending
  constructor
  · intro new
    rcases change.ended new with old | ⟨-, here⟩
    · obtain ⟨x, known, past⟩ := (h c ending).mp old
      obtain ⟨y, here, later⟩ := change.later.callers c x known
      exact ⟨y, here, (later.ended (by rw [past]; rfl)).trans past⟩
    · exact here
  · rintro ⟨x, here, past⟩
    rcases change.concludes here past with old | new
    · exact change.later.events_subset ((h c ending).mpr old)
    · exact new

/-- A use ends no call. -/
theorem Use.concluded (h : s.Concluded) (use : Use s t) : t.Concluded := by
  intro c ending
  constructor
  · intro new
    obtain ⟨x, known, past⟩ := (h c ending).mp (use.recorded (by simp) (by simp) new)
    obtain ⟨y, here, later⟩ := use.later.callers c x known
    exact ⟨y, here, (later.ended (by rw [past]; rfl)).trans past⟩
  · rintro ⟨x, here, past⟩
    exact use.later.events_subset ((h c ending).mpr (use.ends here past))

/-- A call that begins is new among those that have begun, and is counted. -/
theorem Change.counts (change : Change s τ t) :
    t.begun = s.begun ∧ t.stats.dispatched = s.stats.dispatched ∨
      ∃ c, s.Fresh c ∧ ¬ t.Fresh c ∧ t.begun = c :: s.begun ∧
        t.stats.dispatched = s.stats.dispatched + 1 := by
  cases change with
  | @leave w y reason =>
    refine .inl ⟨?_, by cases reason <;> rfl⟩
    rw [begun, events, List.map_append, List.filterMap_append,
      filterMap_returns _ _ _ _ fun _ ↦ rfl]
    rfl
  | lose => exact .inl ⟨rfl, by dsimp only; split <;> rfl⟩
  | begin found fresh =>
    refine .inr ⟨_, ⟨_, found, fresh⟩, ?_, rfl, rfl⟩
    rintro ⟨x, here, still⟩
    obtain rfl := Table.eq_of_set found here
    exact absurd still (by simp)
  | _ => exact .inl ⟨rfl, rfl⟩

/-- A call for which there is no worker was not over, and is counted. -/
theorem Change.counts_unfound (h : s.Routing) (change : Change s τ t) :
    t.unfound = s.unfound ∧ t.stats.notFound = s.stats.notFound ∨
      ∃ c x, s.callers.get? c = some x ∧ x.phase.isEnded = false ∧ t.unfound = c :: s.unfound ∧
        t.stats.notFound = s.stats.notFound + 1 := by
  have silent {c : CallerId} {e : Ending} {earlier : List Event}
      (other : ∀ k, e ≠ .result (.error (.notFound k))) :
      (Event.ended c e :: earlier).filterMap Event.missing? =
        earlier.filterMap Event.missing? := by
    refine List.filterMap_cons_none ?_
    unfold Event.missing?
    split
    next same => exact absurd (Event.ended.inj same).2 (other _)
    next => rfl
  cases change with
  | @leave w y reason =>
    refine .inl ⟨?_, by cases reason <;> rfl⟩
    rw [unfound, events, List.map_append, List.filterMap_append,
      filterMap_returns _ _ _ _ fun _ ↦ rfl]
    rfl
  | lose => exact .inl ⟨rfl, by dsimp only; split <;> rfl⟩
  | notFound found seeking => exact .inr ⟨_, _, found, by rw [seeking]; rfl, rfl, rfl⟩
  | conclude found cause =>
    refine .inl ⟨silent fun k same ↦ ?_, rfl⟩
    subst same
    cases cause with
    | result replied => exact h.answers found replied
  | giveUp found live apart cause =>
    refine .inl ⟨silent fun k same ↦ ?_, rfl⟩
    subst same
    cases cause
  | withdraw found suspended cause =>
    refine .inl ⟨silent fun k same ↦ ?_, rfl⟩
    subst same
    cases cause
  | _ => exact .inl ⟨rfl, rfl⟩

/-- A caller whose call ends by its own decision has moved. -/
theorem Concludes.moved {ending : Ending} (cause : Concludes s x ending) : x.phase ≠ .fresh := by
  cases cause with
  | result replied | rejected replied | lost replied => simp [replied]
  | cancelled seeking | crashed seeking => simp [seeking]
  | closed suspended => simp [suspended]

/-- A caller that has moved, or has a reply, has begun its call, unless it was dropped before. -/
theorem Change.has_begun (h : s.Counted n) (routing : s.Routing) (change : Change s τ t)
    (here : t.callers.get? c = some x) (moved : x.phase ≠ .fresh) :
    c ∈ t.begun ∨ x.phase = .ended .withdrawn ∧ t.tried c = [] := by
  have recorded (begun : c ∈ s.begun) : c ∈ t.begun :=
    mem_begun.mpr (change.later.events_subset (mem_begun.mp begun))
  have began {old : Caller} (known : s.callers.get? c = some old) (moved : old.phase ≠ .fresh)
      (live : old.phase ≠ .ended .withdrawn) : c ∈ t.begun :=
    recorded ((h.begins known moved).resolve_right fun past ↦ live past.1)
  by_cases own : τ = .caller c
  case neg =>
    rw [change.tried_of_other own]
    obtain ⟨old, known, rfl | ⟨w, r, waits, rfl⟩⟩ := change.stays own here
    · exact (h.begins known moved).imp_left recorded
    · exact .inl (began known (by simp [waits]) (by simp [waits]))
  subst own
  cases change with
  | rest => exact h.begins here moved
  | spawn found seeking =>
    obtain rfl := Option.some.inj (Eq.trans (Eq.symm here) found)
    exact .inl (began here (by simp [seeking]) (by simp [seeking]))
  | begin => exact .inl List.mem_cons_self
  | beginDirect found fresh direct =>
    exact absurd ((routing.filed.indirect found).symm.trans direct) (by simp)
  | push offers | suspend offers | refuse offers | refuseDirect offers =>
    have seeking := offers.seeking
    exact .inl (began offers.found (by simp [seeking]) (by simp [seeking]))
  | occupy known suspended => exact .inl (began known (by simp [suspended]) (by simp [suspended]))
  | turnAway found suspended => exact .inl (began found (by simp [suspended]) (by simp [suspended]))
  | retry found replied => exact .inl (began found (by simp [replied]) (by simp [replied]))
  | limit found waiting =>
    rcases waiting with phase | phase <;>
      exact .inl (began found (by simp [phase]) (by simp [phase]))
  | conclude found cause =>
    refine .inl (began found cause.moved fun past ↦ ?_)
    exact absurd (cause.live.symm.trans (congrArg Phase.isEnded past)) (by simp [Phase.isEnded])
  | notFound found seeking => exact .inl (began found (by simp [seeking]) (by simp [seeking]))
  | lose found replied => exact .inl (began found (by simp [replied]) (by simp [replied]))
  | withdraw found suspended =>
    exact .inl (began found (by simp [suspended]) (by simp [suspended]))
  | giveUp found live apart cause =>
    obtain rfl := Table.eq_of_set found here
    rename_i old ending
    by_cases fresh : old.phase = .fresh
    · refine .inr ⟨?_, ?_⟩
      · cases cause with
        | dropped => rfl
        | timeout waiting => rcases waiting with phase | phase <;> simp [phase] at fresh
      · obtain ⟨count, -⟩ := (routing.routed found).free (by rw [fresh]; rfl) live
        rw [h.fresh found fresh] at count
        have none : (s.tried c).length = 0 := by omega
        exact List.eq_nil_of_length_eq_zero none
    · refine .inl (began found fresh fun past ↦ ?_)
      rw [past] at live
      exact absurd live (by simp [Phase.isEnded])

/-- Every change counts what it does. -/
theorem Change.counted (h : s.Counted n) (routing : s.Routing) (change : Change s τ t) :
    t.Counted n where
  dispatched := by
    rcases change.counts with ⟨begun, same⟩ | ⟨c, -, -, begun, more⟩
    · rw [begun, same, h.dispatched]
    · rw [begun, more, h.dispatched, List.length_cons]
  once := by
    rcases change.counts with ⟨begun, -⟩ | ⟨c, ⟨x, known, fresh⟩, -, begun, -⟩
    · exact begun ▸ h.once
    · refine begun ▸ List.nodup_cons.mpr ⟨fun before ↦ ?_, h.once⟩
      obtain ⟨y, known', moved⟩ := h.known before
      exact moved (Option.some.inj (known.symm.trans known') ▸ fresh)
  notFound := by
    rcases change.counts_unfound routing with ⟨unfound, same⟩ | ⟨c, x, -, -, unfound, more⟩
    · rw [unfound, same, h.notFound]
    · rw [unfound, more, h.notFound, List.length_cons]
      omega
  single := by
    rcases change.counts_unfound routing with ⟨unfound, -⟩ | ⟨c, x, known, live, unfound, -⟩
    · exact unfound ▸ h.single
    · refine unfound ▸ List.nodup_cons.mpr ⟨fun before ↦ ?_, h.single⟩
      obtain ⟨key, recorded⟩ := mem_unfound.mp before
      obtain ⟨y, known', past⟩ := (h.concluded _ _).mp recorded
      obtain rfl := Option.some.inj (known.symm.trans known')
      exact absurd (live.symm.trans (congrArg Phase.isEnded past)) (by simp [Phase.isEnded])
  fresh := by
    intro c x here fresh
    rcases change.caller here with same | ⟨old, known, moves⟩
    · exact h.fresh same fresh
    · cases moves with
      | limit =>
        have three : old.tries = 3 := h.fresh known fresh
        exact three
      | _ => exact Phase.noConfusion fresh
  known := by
    intro c inside
    have kept (old : c ∈ s.begun) : ∃ y, t.callers.get? c = some y ∧ y.phase ≠ .fresh := by
      obtain ⟨x, known, moved⟩ := h.known old
      obtain ⟨y, here, -⟩ := change.later.callers c x known
      refine ⟨y, here, fun fresh ↦ ?_⟩
      obtain ⟨x', known', was⟩ := change.fresh ⟨y, here, fresh⟩
      exact moved (Option.some.inj (known.symm.trans known') ▸ was)
    rcases change.counts with ⟨begun, -⟩ | ⟨d, ⟨x, known, -⟩, moved, begun, -⟩
    · exact kept (begun ▸ inside)
    · rcases List.mem_cons.mp (begun ▸ inside) with rfl | old
      · obtain ⟨y, here, -⟩ := change.later.callers c x known
        exact ⟨y, here, fun fresh ↦ moved ⟨y, here, fresh⟩⟩
      · exact kept old
  begins := change.has_begun h routing
  concluded := change.concluded h.concluded

/-- A use from outside begins no call. -/
theorem Use.begun (use : Use s t) : t.begun = s.begun ∧ t.unfound = s.unfound := by
  unfold State.begun unfound
  rcases use.events_eq with same | ⟨v, same⟩ | same <;> rw [same] <;> exact ⟨rfl, rfl⟩

/-- A use counts nothing here but that a removal finds no worker. -/
theorem Use.counted (h : s.Counted n) (use : Use s t)
    (dispatched : t.stats.dispatched = s.stats.dispatched) {m : Nat}
    (notFound : t.stats.notFound + n = s.stats.notFound + m) : t.Counted m where
  dispatched := by rw [dispatched, use.begun.1, h.dispatched]
  once := use.begun.1 ▸ h.once
  notFound := by
    have before := h.notFound
    rw [use.begun.2]
    omega
  single := use.begun.2 ▸ h.single
  fresh := by
    intro c x here fresh
    rcases use.becomes here with ⟨-, key, request, rfl⟩ | ⟨old, known, rfl | rfl⟩
    · rfl
    · exact h.fresh known fresh
    · have three : old.tries = 3 := h.fresh known fresh
      exact three
  known := by
    intro c inside
    obtain ⟨x, known, moved⟩ := h.known (use.begun.1 ▸ inside)
    obtain ⟨y, here, -⟩ := use.later.callers c x known
    refine ⟨y, here, fun fresh ↦ ?_⟩
    rcases use.becomes here with ⟨new, -⟩ | ⟨old, known', same⟩
    · exact absurd new (Nat.ne_of_lt (Table.lt_size known))
    · obtain rfl := Option.some.inj (known.symm.trans known')
      rcases same with rfl | rfl <;> exact moved fresh
  begins := by
    intro c x here moved
    rw [use.begun.1, use.tried]
    rcases use.becomes here with ⟨-, key, request, rfl⟩ | ⟨old, known, same⟩
    · exact absurd rfl moved
    · have was := h.begins known
      rcases same with rfl | rfl <;> exact was moved
  concluded := use.concluded h.concluded

/-- Nothing has been counted at the start. -/
theorem counted_start (policy : Policy) (connector : Ledger.Connector) :
    (start policy connector).Counted 0 where
  dispatched := rfl
  once := .nil
  notFound := rfl
  single := .nil
  fresh := fun known ↦ absurd ((Table.get?_empty _).symm.trans known) (by simp)
  known := fun inside ↦ absurd inside List.not_mem_nil
  begins := fun known ↦ absurd ((Table.get?_empty _).symm.trans known) (by simp)
  concluded := by
    intro c ending
    refine ⟨fun recorded ↦ absurd recorded List.not_mem_nil, ?_⟩
    rintro ⟨x, known, -⟩
    exact absurd ((Table.get?_empty _).symm.trans known) (by simp)

/-- What happens next is a removal that finds no worker. -/
def Misses (s t : State) : Prop :=
  ∃ key, s.find? key = none ∧ t = (s.remove key).2

/-- A run in which so many removals find no worker. -/
inductive Course : State → Nat → State → Prop
  | start (s : State) : Course s 0 s
  | miss {s t u : State} {n : Nat} (before : Course s n t) (misses : Misses t u) :
    Course s (n + 1) u
  | find {s t u : State} {n : Nat} (before : Course s n t) (next : Next t u)
    (finds : ¬ Misses t u) : Course s n u

/-- A course is a run. -/
theorem Course.run (course : Course s n t) : Run s t := by
  induction course with
  | start => exact .refl
  | miss before misses ih =>
    obtain ⟨key, -, rfl⟩ := misses
    exact .tail ih (.remove _ key)
  | find before next finds ih => exact .tail ih next

/-- Every run has some number of removals that find no worker. -/
theorem Run.course (run : Run s t) : ∃ n, Course s n t := by
  induction run with
  | refl => exact ⟨0, .start s⟩
  | @tail t u _ next ih =>
    obtain ⟨n, before⟩ := ih
    by_cases misses : Misses t u
    · exact ⟨n + 1, before.miss misses⟩
    · exact ⟨n, before.find next misses⟩

/-- What happens next, unless it is a step or a removal that finds no worker, changes neither
count. -/
theorem Next.uncounted (next : Next s t) (finds : ¬ Misses s t) :
    s.step = some t ∨ Use s.bare t.bare ∧ t.stats.dispatched = s.stats.dispatched ∧
      t.stats.notFound = s.stats.notFound := by
  have same {u : State} (stats : u.bare.stats = s.bare.stats) :
      u.stats.dispatched = s.stats.dispatched ∧ u.stats.notFound = s.stats.notFound :=
    ⟨congrArg Stats.dispatched stats, congrArg Stats.notFound stats⟩
  rcases next.step_or_use with taken | use
  · exact .inl taken
  cases next with
  | step taken => exact .inl taken
  | dispatch => exact .inr ⟨use, rfl, rfl⟩
  | drop c =>
    refine .inr ⟨use, same ?_⟩
    unfold dropCaller
    split
    next => rfl
    next => rw [bare_wake, bare_updateCaller]
  | remove key =>
    cases named : s.find? key with
    | none => exact absurd ⟨key, named, rfl⟩ finds
    | some w =>
      have dispatched := congrArg (fun u : State ↦ u.stats.dispatched) (bare_remove named)
      have notFound := congrArg (fun u : State ↦ u.stats.notFound) (bare_remove named)
      exact .inr ⟨use, dispatched, notFound⟩
  | shutdown =>
    refine .inr ⟨use, same ?_⟩
    unfold State.shutdown
    split
    next => rfl
    next =>
      obtain ⟨workers, told, -⟩ :=
        bare_cancelAll (List.range s.workers.size) ({ s with isShutDown := true }.log .shutDown)
      have stats := congrArg State.stats told
      exact stats
  | ledger => exact .inr ⟨use, rfl, rfl⟩
  | wait => exact .inr ⟨use, rfl, rfl⟩
  | schedule kept => exact .inr ⟨use, same (congrArg stats kept)⟩

/-- What a course counts. -/
theorem Course.counted {policy : Policy} {connector : Ledger.Connector}
    (course : Course (State.start policy connector) n s) : s.bare.Counted n := by
  induction course with
  | start => exact counted_start policy connector
  | @miss t u n before misses ih =>
    obtain ⟨key, missing, rfl⟩ := misses
    have use := use_remove t key
    unfold State.remove at use ⊢
    rw [missing] at use ⊢
    exact use.counted ih rfl (Nat.add_right_comm _ 1 n)
  | @find t u n before next finds ih =>
    have routing : t.bare.Routing :=
      Reachable.routing ⟨policy, connector, before.run⟩
    rcases next.uncounted finds with taken | ⟨use, dispatched, notFound⟩
    · rcases step_changes taken with ⟨τ, -, changes⟩ | same
      · have kept := Changes.preserve (P := fun s ↦ s.Routing ∧ s.Counted n)
          (fun h change ↦ ⟨change.routing h.1, change.counted h.2 h.1⟩) ⟨routing, ih⟩ changes
        exact kept.2
      · exact same ▸ ih
    · exact use.counted ih dispatched (congrArg (· + n) notFound)

end Counting

/-- How requests are routed, and what their calls count for. -/
structure Routes (s : State) : Prop where
  /-- A request is offered to at most three workers, and to none of them twice. -/
  few : ∀ c, (s.tried c).Nodup ∧ (s.tried c).length ≤ 3
  /-- An envelope is put only into the mailbox of a worker that its request was offered to. -/
  queued : ∀ c w, .queued c w ∈ s.events → w ∈ s.tried c
  /-- There is no worker for a call because three have given its request back, or because the
  directory names none at that moment and the request creates none. -/
  told : ∀ t c x y key, Next s t → s.callers.get? c = some x → x.phase.isEnded = false →
    t.callers.get? c = some y → y.phase = .ended (.result (.error (.notFound key))) →
    s.Exhausted c ∨
      s.isShutDown = false ∧ s.find? x.key = none ∧ x.request.createsWorker = false
  /-- There is no worker for the key of a call, and none for a request that creates workers only
  because three have given it back. -/
  missing : ∀ c x key, s.callers.get? c = some x →
    x.phase = .ended (.result (.error (.notFound key))) →
    key = x.key ∧ (x.request.createsWorker = true → s.Exhausted c)
  /-- A request for which there was no worker is never accepted. -/
  unaccepted : ∀ c x key, s.callers.get? c = some x →
    x.phase = .ended (.result (.error (.notFound key))) →
    ∀ t, Run s t → ∀ w, c ∉ t.acceptances w
  /-- Each call that has begun is counted once. -/
  dispatched : s.stats.dispatched = s.begun.length ∧ s.begun.Nodup
  begun : ∀ c x, s.callers.get? c = some x →
    (c ∈ s.begun → x.phase ≠ .fresh) ∧
      (x.phase ≠ .fresh → c ∈ s.begun ∨ x.phase = .ended .withdrawn ∧ s.tried c = [])
  /-- Each call for which there was no worker is counted once, and so is each removal that has found
  none. -/
  unfound : s.unfound.Nodup ∧ ∀ c, c ∈ s.unfound ↔ ∃ x key, s.callers.get? c = some x ∧
    x.phase = .ended (.result (.error (.notFound key)))
  notFound : ∀ policy connector missed, Course (start policy connector) missed s →
    s.stats.notFound = s.unfound.length + missed
  course : ∃ policy connector missed, Course (start policy connector) missed s

/-- Requests are routed to three workers at most, and there is no worker for a call only if none of
them has accepted its request; in every state that can come about. -/
theorem Reachable.routes (h : s.Reachable) : s.Routes := by
  have reachable := h
  have routing := h.routing
  obtain ⟨policy, connector, run⟩ := h
  obtain ⟨missed, course⟩ := run.course
  have counted := course.counted
  refine ⟨fun c ↦ ?_, fun c w ↦ routing.queued, fun t c x y key next known live here past ↦ ?_,
    fun c x key known past ↦ ?_, fun c x key known past t after w ↦ ?_,
    ⟨counted.dispatched, counted.once⟩, fun c x known ↦ ⟨fun begun ↦ ?_, counted.begins known⟩,
    ⟨counted.single, fun c ↦ ?_⟩, fun policy connector missed course ↦ course.counted.notFound,
    policy, connector, missed, course⟩
  · cases known : s.callers.get? c with
    | none =>
      have none : s.tried c = [] := routing.unknown known
      simp [none]
    | some x => exact ⟨(routing.routed known).distinct, (routing.routed known).few⟩
  · exact (reachable.told next known live here past).imp_left Exhausted.of_bare
  · obtain ⟨same, -, cause⟩ := (routing.routed known).missing past
    refine ⟨same, fun creates ↦ (cause.resolve_right ?_).of_bare⟩
    simp [creates]
  · intro new
    have old := after.accepted_of_past known (by rw [past]; rfl) new
    exact ((routing.routed known).missing past).2.1 w (mem_acceptances.mp old)
  · obtain ⟨y, known', moved⟩ := counted.known begun
    exact Option.some.inj (known'.symm.trans known) ▸ moved
  · have recorded : c ∈ s.unfound ↔ ∃ key, .ended c (.result (.error (.notFound key))) ∈ s.events :=
      mem_unfound
    rw [recorded]
    constructor
    · rintro ⟨key, past⟩
      obtain ⟨x, known, past⟩ := (counted.concluded c _).mp past
      exact ⟨x, key, known, past⟩
    · rintro ⟨x, key, known, past⟩
      exact ⟨key, (counted.concluded c _).mpr ⟨x, known, past⟩⟩

/-- A request is offered to one worker after the other while each of them is removed, and comes back
from the third. -/
theorem Reachable.routes_three :
    ∃ s : State, s.Reachable ∧ s.Routes ∧ s.tried 1 = [2, 1, 0] ∧ s.unfound = [1] ∧
      s.stats.dispatched = 4 ∧ s.stats.notFound = 2 := by
  have called := ((Session.start : Session {} trialConnector [] _).act rfl
    (.tail (.single (.spawn "treasury" (trialGenerate "slow"))) (.spawn "treasury" trialSign))).runReady
      40
  have replace (s : State) : Acts s _ :=
    .tail (.single (.remove "treasury")) (.spawn "treasury" (trialGenerate "slow"))
  have waited := called.wait rfl (show 0 ≤ 50 by decide) (by rintro next ⟨⟩; decide)
  have second := (waited.act rfl (replace _)).runReady 40
  have left := (second.advance rfl (show _ = some 100 from rfl) rfl (by decide) 40).1
  have third := (left.act rfl (replace _)).runReady 40
  have gone := (third.advance rfl (show _ = some 150 from rfl) rfl (by decide) 40).1
  have removed := (gone.act rfl
    (.tail (.single (.remove "treasury")) (.remove "treasury"))).runReady 40
  have last := (removed.advance rfl (show _ = some 200 from rfl) rfl (by decide) 40).1
  exact ⟨_, last.reachable, Reachable.routes last.reachable, rfl, rfl, rfl, rfl⟩

end State

end Signatory.Service
