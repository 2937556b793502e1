import Signatory.Proofs.Service.Sessions

/-!
# Nobody is forgotten

Whoever has something to do is in the schedule. A worker that is left out of it works on a request
and waits for something that lies ahead, or it has nothing in its hand and has not been told to
leave; a caller that is left out has an envelope with a worker, is suspended on a mailbox, or is
over. So while every task waits, nothing but the clock or the user can set a task going.
-/

namespace Signatory.Service.State

variable {front : List CallerId} {s t : State} {τ : Task} {w : WorkerId} {y z : Worker}
  {c : CallerId} {x : Caller} {time : Nat}

/-- A caller runs, or is called. -/
def Attends (s : State) (c : CallerId) : Prop :=
  s.running = some (.caller c) ∨ s.Called (.caller c)

/-- What a caller may do without being called: its call is over, it waits for a reply, or it waits
for a place. -/
inductive Stands (s : State) (c : CallerId) (x : Caller) : Prop
  | past (past : x.phase.isEnded = true)
  | reply {w : WorkerId} (awaiting : x.phase = .awaiting w)
  | line {w : WorkerId} {y : Worker} (suspended : x.phase = .suspended w)
    (found : s.workers.get? w = some y) (waits : c ∈ y.mailbox.waiting)

/-- Whoever stands does so as long as the workers are as they were. -/
theorem Stands.congr (h : s.Stands c x) (workers : t.workers = s.workers) : t.Stands c x := by
  cases h with
  | past past => exact .past past
  | reply awaiting => exact .reply awaiting
  | line suspended found waits => exact .line suspended (workers ▸ found) waits

/-- Every caller that has something to do is in the schedule. -/
def Heeded (s : State) : Prop :=
  ∀ c x, s.callers.get? c = some x → s.Attends c ∨ s.Stands c x

/-- Everyone who has something to do is in the schedule. -/
structure Attended (s : State) : Prop where
  owned : Owned s.workers s.callers
  workers : ∀ {w y}, s.workers.get? w = some y → .worker w ∈ s.schedule ∨ s.Calm y
  callers : s.Heeded

/-- No task runs, and everyone who has something to do is in the schedule. -/
structure Poised (s : State) : Prop extends Attended s where
  rests : s.running = none

/-- Who is suspended on an open mailbox, and has no place reserved there, waits for one. -/
theorem waiting_of_suspended (h : Owned s.workers s.callers) (known : s.callers.get? c = some x)
    (suspended : x.phase = .suspended w) (found : s.workers.get? w = some y)
    (opened : y.mailbox.closed = false) (placeless : c ∉ y.mailbox.reserved) :
    c ∈ y.mailbox.waiting :=
  (List.mem_append.mp (lined_of_suspended h known suspended found opened)).resolve_left placeless

section Stirring

/-- A worker that did not run has been created, or it goes on with what it does. -/
theorem Change.spares (change : Change s τ t) (other : τ ≠ .worker w)
    (here : t.workers.get? w = some z) :
    (z.activity = .idle ∧ z.cancelled = false) ∨
      ∃ y, s.workers.get? w = some y ∧ z.activity = y.activity ∧ z.cancelled = y.cancelled := by
  have apart {v : WorkerId} {y : Worker} (moved : τ = .worker v)
      (here : (s.workers.set v y).get? w = some z) :
      ∃ y, s.workers.get? w = some y ∧ z.activity = y.activity ∧ z.cancelled = y.cancelled := by
    rw [Table.get?_set_ne fun same ↦ other (moved.trans (congrArg _ same))] at here
    exact ⟨z, here, rfl, rfl⟩
  have kept {v : WorkerId} {y next : Worker} (found : s.workers.get? v = some y)
      (here : (s.workers.set v next).get? w = some z)
      (activity : next.activity = y.activity) (cancelled : next.cancelled = y.cancelled) :
      ∃ y, s.workers.get? w = some y ∧ z.activity = y.activity ∧ z.cancelled = y.cancelled := by
    rcases Table.of_set found here with ⟨rfl, rfl⟩ | ⟨-, here⟩
    · exact ⟨y, found, activity, cancelled⟩
    · exact ⟨z, here, rfl, rfl⟩
  cases change with
  | leave => exact .inr (apart rfl here)
  | die => exact .inr (apart rfl here)
  | skip => exact .inr (apart rfl here)
  | misroute => exact .inr (apart rfl here)
  | connect => exact .inr (apart rfl here)
  | lookup => exact .inr (apart rfl here)
  | serve => exact .inr (apart rfl here)
  | finish => exact .inr (apart rfl here)
  | again => exact .inr (apart rfl here)
  | spawn =>
    rcases Table.of_push here with ⟨-, rfl, -⟩ | here
    · exact .inl ⟨rfl, rfl⟩
    · exact .inr ⟨z, here, rfl, rfl⟩
  | push offers found => exact .inr (kept found here rfl rfl)
  | suspend offers found => exact .inr (kept found here rfl rfl)
  | occupy known suspended found => exact .inr (kept found here rfl rfl)
  | withdraw =>
    obtain ⟨y, found, ⟨-, rfl⟩ | ⟨-, rfl⟩⟩ := Table.of_update here
    · exact .inr ⟨y, found, rfl, rfl⟩
    · exact .inr ⟨z, found, rfl, rfl⟩
  | _ => exact .inr ⟨z, here, rfl, rfl⟩

/-- There is as little to do for a worker that goes on with what it does. -/
theorem Calm.congr (h : s.Calm y) (activity : z.activity = y.activity)
    (cancelled : z.cancelled = y.cancelled) (now : t.now = s.now) : t.Calm z where
  kept := fun idle ↦ cancelled.trans (h.kept (activity.symm.trans idle))
  ahead := fun alarm waits ↦ now.symm ▸ h.ahead alarm (activity ▸ waits)

/-- There is nothing to do for a worker that has just been created. -/
theorem calm_of_idle (idle : z.activity = .idle) (kept : z.cancelled = false) : s.Calm z where
  kept := fun _ ↦ kept
  ahead := fun alarm waits ↦ by
    rw [idle] at waits
    exact absurd waits (by simp [Activity.alarm?])

/-- Workers that have something to do stay in the schedule. -/
theorem Stir.attended_worker (h : s.Attended) (stir : Stir s τ t)
    (there : t.workers.get? w = some z) : .worker w ∈ t.schedule ∨ t.Calm z := by
  have now : t.now = s.now := stir.change.now
  by_cases own : τ = .worker w
  · rcases stir.goes with runs | rests
    · left
      rw [schedule, runs, own]
      exact List.mem_cons_self
    · right
      have calm := stir.rests rests
      rw [own] at calm
      exact calm z there
  · rcases stir.change.spares own there with ⟨idle, kept⟩ | ⟨y, found, activity, cancelled⟩
    · exact .inr (calm_of_idle idle kept)
    · rcases h.workers found with here | calm
      · exact .inl (stir.mem here fun same ↦ absurd same.symm own)
      · exact .inr (calm.congr activity cancelled now)

/-- Callers that have something to do stay in the schedule. -/
theorem Stir.heeded (h : s.Heeded) (stir : Stir s τ t) (owned : Owned t.workers t.callers) :
    t.Heeded := by
  intro c x there
  by_cases own : τ = .caller c
  · rcases stir.goes with runs | rests
    · exact .inl (.inl (own ▸ runs))
    · right
      have patient := stir.rests rests
      rw [own] at patient
      have patient := patient x there
      cases phase : x.phase with
      | fresh => exact absurd phase patient.begun
      | seeking => exact absurd phase patient.decided
      | replied w r => exact absurd phase (patient.silent w r)
      | awaiting w => exact .reply phase
      | ended e => exact .past (by rw [phase]; rfl)
      | suspended w =>
        obtain ⟨y, found⟩ := owned.present there (by rw [phase]; rfl)
        have opened := patient.opened w phase
        unfold isClosed at opened
        rw [found] at opened
        exact .line phase found
          (waiting_of_suspended owned there phase found opened (patient.placeless w y phase found).1)
  · obtain ⟨old, known, rfl | ⟨w, r, awaiting, rfl⟩⟩ := stir.stays own there
    · rcases h c _ known with attends | stands
      · rcases attends with runs | called
        · exact absurd (Option.some.inj (stir.running.symm.trans runs)) own
        · exact .inl (.inr (stir.wakes.called called))
      · cases stands with
        | past past => exact .inr (.past past)
        | reply awaiting => exact .inr (.reply awaiting)
        | @line w y suspended found waits =>
          rcases stir.wakes.lines c w y found waits with runs | called | ⟨z, found', waits'⟩
          · exact absurd (Option.some.inj (stir.running.symm.trans runs)) own
          · exact .inl (.inr called)
          · exact .inr (.line suspended found' waits')
    · rcases stir.wakes.replies c _ w r there rfl with called | ⟨old', known', replied⟩
      · exact .inl (.inr called)
      · obtain rfl := Option.some.inj (known.symm.trans known')
        exact absurd (awaiting.symm.trans replied) (by simp)

/-- What a task does leaves nobody forgotten. -/
theorem Stir.attended (h : s.Attended) (stir : Stir s τ t) : t.Attended := by
  have owned : Owned s.bare.workers s.bare.callers := h.owned
  have owned : Owned t.bare.workers t.bare.callers := stir.change.owned owned
  exact ⟨owned, stir.attended_worker h, stir.heeded h.callers owned⟩

end Stirring

section Steps

theorem Stirs.attended (h : s.Attended) (stirs : Stirs τ s t) : t.Attended := by
  induction stirs with
  | refl => exact h
  | tail _ stir ih => exact stir.attended ih

/-- Only callers are in the foreground. -/
theorem ready_of_called (called : s.Called (.worker w)) : .worker w ∈ s.ready := by
  rcases called with ready | ⟨foremost, -⟩
  · exact ready
  · obtain ⟨c, -, named⟩ := Option.map_eq_some_iff.mp foremost
    exact Task.noConfusion named

/-- A caller that attends while no task runs is called. -/
theorem Attends.called (attends : s.Attends c) (rests : s.running = none) :
    s.Called (.caller c) :=
  attends.resolve_left fun runs ↦ absurd (rests.symm.trans runs) (by simp)

/-- Callers stay in the schedule when the next task in it begins to run. -/
theorem Heeded.next (h : s.Heeded) {ready : List Task} (rests : s.running = none)
    (queue : s.ready = τ :: ready) : Heeded { s with ready, running := some τ } := by
  intro c x known
  rcases h c x known with attends | stands
  · left
    rcases attends.called rests with here | foremost
    · rw [queue] at here
      rcases List.mem_cons.mp here with first | later
      · exact .inl (congrArg some first.symm)
      · exact .inr (.inl later)
    · exact .inr (.inr foremost)
  · exact .inr (stands.congr rfl)

/-- Callers stay in the schedule when one of them begins to run that is in the foreground. -/
theorem Heeded.lead (h : s.Heeded) (rests : s.running = none)
    (only : ∀ d, s.foreground = some d → d = c) (foreground : Option CallerId) (summoned : Bool) :
    Heeded { s with running := some (.caller c), foreground, isSummoned := summoned } := by
  intro d x known
  rcases h d x known with attends | stands
  · left
    rcases attends.called rests with here | ⟨foremost, -⟩
    · exact .inr (.inl here)
    · obtain ⟨e, found, named⟩ := Option.map_eq_some_iff.mp foremost
      exact .inl (congrArg some (only e found ▸ named))
  · exact .inr (stands.congr rfl)

/-- The next task in the schedule begins to run. -/
theorem Attended.next (h : s.Attended) {ready : List Task} (rests : s.running = none)
    (queue : s.ready = τ :: ready) : Attended { s with ready, running := some τ } where
  owned := h.owned
  workers := by
    have same : ({ s with ready, running := some τ } : State).schedule = s.schedule := by
      rw [schedule, schedule, rests, queue]
      rfl
    intro w y found
    rw [same]
    exact (h.workers found).imp id fun calm ↦ calm.congr rfl rfl rfl
  callers := h.callers.next rests queue

/-- A caller in the foreground begins to run. -/
theorem Attended.lead (h : s.Attended) (rests : s.running = none)
    (only : ∀ d, s.foreground = some d → d = c) (foreground : Option CallerId) (summoned : Bool) :
    Attended { s with running := some (.caller c), foreground, isSummoned := summoned } where
  owned := h.owned
  workers := by
    intro w y found
    rcases h.workers found with here | calm
    · left
      rw [schedule, rests] at here
      exact List.mem_cons_of_mem _ here
    · exact .inr (calm.congr rfl rfl rfl)
  callers := h.callers.lead rests only foreground summoned

/-- No step forgets anyone. -/
theorem Attended.step (h : s.Attended) (taken : s.step = some t) : t.Attended := by
  cases running : s.running with
  | some τ => exact (step_stirs running taken).attended h
  | none =>
    unfold State.step at taken
    rw [running] at taken
    dsimp only at taken
    split at taken
    next τ ready queue => exact Option.some.inj taken ▸ h.next running queue
    next empty =>
      split at taken
      next c foremost =>
        split at taken
        next =>
          obtain rfl := Option.some.inj taken
          exact h.lead running (fun d same ↦ Option.some.inj (same.symm.trans foremost))
            s.foreground false
        next => exact absurd taken (by simp)
      next => exact absurd taken (by simp)

end Steps

section Acting

/-- A worker that looks for something to do is ready once it is woken. -/
theorem ready_wakeWorker (found : s.workers.get? w = some z) (idle : z.activity = .idle) :
    .worker w ∈ (s.wakeWorker w).ready := by
  have woken : s.wakeWorker w = s.wake (.worker w) := by
    unfold wakeWorker
    rw [found]
    dsimp only
    rw [idle]
    rfl
  rw [woken]
  exact ready_of_called (called_wake s _)

/-- A worker that is told to leave is called, if it has nothing in its hand. -/
theorem ready_cancel (there : (s.cancel w).workers.get? w = some z) (idle : z.activity = .idle) :
    .worker w ∈ (s.cancel w).ready := by
  rw [workers_cancel] at there
  exact ready_wakeWorker there idle

/-- What a use does to the workers: it tells some of them to leave, and these are called if they
have nothing in their hands. -/
def Warns (s t : State) : Prop :=
  ∀ w z, t.workers.get? w = some z → ∃ y, s.workers.get? w = some y ∧ z.activity = y.activity ∧
    (z.cancelled = y.cancelled ∨ (z.activity = .idle → .worker w ∈ t.ready))

/-- Whoever leaves the workers alone warns nobody. -/
theorem Warns.of_eq (same : t.workers = s.workers) : Warns s t :=
  fun _ z there ↦ ⟨z, same ▸ there, rfl, .inl rfl⟩

/-- A worker that is told to leave is warned. -/
theorem warns_cancel (s : State) (w : WorkerId) : Warns s (s.cancel w) := by
  intro v z there
  by_cases here : w = v
  · subst here
    have told := ready_cancel there
    rw [workers_cancel] at there
    obtain ⟨y, found, rfl⟩ := Table.of_update_self there
    exact ⟨y, found, rfl, .inr told⟩
  · rw [workers_cancel, Table.get?_update, if_neg here] at there
    exact ⟨z, there, rfl, .inl rfl⟩

/-- Several workers that are told to leave are warned. -/
theorem warns_cancelAll (ws : List WorkerId) (s : State) : Warns s (ws.foldl cancel s) := by
  induction ws generalizing s with
  | nil => exact .of_eq rfl
  | cons w ws ih =>
    intro v z there
    obtain ⟨y, found, activity, told⟩ := ih (s.cancel w) v z there
    obtain ⟨x, found', activity', told'⟩ := warns_cancel s w v y found
    refine ⟨x, found', activity.trans activity', ?_⟩
    rcases told with same | ready
    · refine told'.imp same.trans fun ready idle ↦ ?_
      have later : Wakes (fun _ ↦ True) (s.cancel w) (ws.foldl cancel (s.cancel w)) :=
        (Wakes.refl _).cancelAll fun _ _ ↦ trivial
      obtain ⟨woken, grown, -⟩ := later.ready
      rw [List.foldl_cons, grown]
      exact List.mem_append_left _ (ready (activity.symm.trans idle))
    · exact .inr ready

/-- What the user does while no task runs forgets nobody, if it wakes whoever is concerned. -/
theorem Poised.use (h : s.Poised) (use : Use s.bare t.bare) (now : t.now = s.now)
    (wakes : Wakes (fun _ ↦ True) s t) (warns : Warns s t)
    (begins : ∀ {c x}, t.callers.get? c = some x → c = s.callers.size → t.Attends c) :
    t.Poised where
  rests := by
    rcases wakes.running with same | rests
    · exact same.trans h.rests
    · exact rests
  owned := by
    have before : Owned s.bare.workers s.bare.callers := h.owned
    have after : Owned t.bare.workers t.bare.callers := use.owned before
    exact after
  workers := by
    intro w z there
    obtain ⟨y, found, activity, told⟩ := warns w z there
    have stays (here : .worker w ∈ s.schedule) : .worker w ∈ t.schedule := by
      rw [schedule, h.rests] at here
      obtain ⟨woken, grown, -⟩ := wakes.ready
      rw [schedule, grown]
      exact List.mem_append_right _ (List.mem_append_left _ here)
    rcases told with same | ready
    · exact (h.workers found).imp stays fun calm ↦ calm.congr activity same now
    · by_cases idle : z.activity = .idle
      · exact .inl (List.mem_append_right _ (ready idle))
      · refine (h.workers found).imp stays fun calm ↦ ⟨fun still ↦ absurd still idle, ?_⟩
        rw [activity, now]
        exact calm.ahead
  callers := by
    intro c x known
    have kept {old : Caller} (found : s.callers.get? c = some old) (same : x.phase = old.phase) :
        t.Attends c ∨ t.Stands c x := by
      rcases h.callers _ _ found with attends | stands
      · exact .inl (.inr (wakes.called (attends.called h.rests)))
      · cases stands with
        | past past => exact .inr (.past (same ▸ past))
        | reply awaiting => exact .inr (.reply (same.trans awaiting))
        | @line w y suspended there waits =>
          rcases wakes.lines c w y there waits with runs | called | ⟨z, there', waits'⟩
          · exact absurd (h.rests.symm.trans runs) (by simp)
          · exact .inl (.inr called)
          · exact .inr (.line (same.trans suspended) there' waits')
    rcases use.becomes known with ⟨new, key, request, rfl⟩ | ⟨old, found, rfl | rfl⟩
    · exact .inl (begins known new)
    · exact kept found rfl
    · exact kept found rfl

/-- What the user does besides starting calls starts none. -/
theorem no_beginning (size : t.callers.size = s.callers.size) (here : t.callers.get? c = some x)
    (new : c = s.callers.size) : t.Attends c := by
  have inside := Table.lt_size here
  rw [size, new] at inside
  exact absurd inside (Nat.lt_irrefl _)

/-- The user starts a call that runs on its own. -/
theorem Poised.spawnCall (h : s.Poised) (key : String) (request : Request) :
    (s.spawnCall { key, request }).2.Poised := by
  have use : Use s.bare (s.spawnCall { key, request }).2.bare := by
    change Use s.bare ((s.addCaller { key, request }).2.wake _).bare
    rw [bare_wake]
    exact .dispatch key request
  have workers : (s.spawnCall { key, request }).2.workers = s.workers := by
    have same := congrArg State.workers (bare_wake (s.addCaller { key, request }).2
      (.caller s.callers.size))
    exact same
  refine h.use use (now_wake _ _) (((Wakes.refl s).addCaller key request).wake trivial)
    (.of_eq workers) ?_
  rintro c x - rfl
  exact .inr (called_wake _ _)

/-- The user drops a caller. -/
theorem Poised.dropCaller (h : s.Poised) (c : CallerId) : (s.dropCaller c).Poised := by
  have use := use_dropCaller s c
  unfold State.dropCaller at use ⊢
  split at use
  next past =>
    rw [if_pos past]
    exact h
  next going =>
    rw [if_neg going]
    generalize dropped : s.updateCaller c (fun caller ↦ { caller with dropped := true }) = u at use
    have size : u.callers.size = s.callers.size := dropped ▸ Table.size_update _ _ _
    have workers : u.workers = s.workers := dropped ▸ rfl
    have told : Wakes (fun _ ↦ True) s u :=
      dropped ▸ (Wakes.refl s).updateCaller c (fun _ ↦ rfl) fun _ _ _ ↦ id
    refine h.use use ((now_wake _ _).trans (dropped ▸ rfl)) (told.wake trivial) ?_ ?_
    · have same := congrArg State.workers (bare_wake u (.caller c))
      exact .of_eq (Eq.trans same workers)
    · exact no_beginning (by rw [callers_wake, size])

/-- The user removes a worker. -/
theorem Poised.remove (h : s.Poised) (key : String) : (s.remove key).2.Poised := by
  have use := use_remove s key
  unfold State.remove at use ⊢
  split at use
  next =>
    dsimp only at use ⊢
    exact h.use use rfl ((Wakes.refl s).count _) (.of_eq rfl) (no_beginning rfl)
  next w named =>
    dsimp only at use ⊢
    obtain ⟨now, callers⟩ := kept_cancel_detach s key w
    have told : Wakes (fun _ ↦ True) s ((s.detach key w).2.cancel w) :=
      ((Wakes.refl s).detach key w).cancel fun _ _ ↦ trivial
    have warns : Warns s ((s.detach key w).2.cancel w) := by
      intro v z there
      obtain ⟨y, found, kept⟩ := warns_cancel (s.detach key w).2 w v z there
      rw [workers_detach] at found
      exact ⟨y, found, kept⟩
    generalize (s.detach key w).2.cancel w = u at use now callers told warns
    exact h.use use now ((told.log _).count _) warns (no_beginning (by exact congrArg _ callers))

/-- The user shuts the service down. -/
theorem Poised.shutdown (h : s.Poised) : s.shutdown.Poised := by
  have use := use_shutdown s
  unfold State.shutdown at use ⊢
  split at use
  next past =>
    rw [if_pos past]
    exact h
  next serving =>
    rw [if_neg serving]
    obtain ⟨workers, same, -⟩ :=
      bare_cancelAll (List.range s.workers.size) ({ s with isShutDown := true }.log .shutDown)
    have now := congrArg State.now same
    have callers := congrArg State.callers same
    have begun : Wakes (fun _ ↦ True) s ({ s with isShutDown := true }.log .shutDown) :=
      (Wakes.refl s).frame (.inl rfl) rfl rfl rfl rfl rfl rfl
    refine h.use use now (begun.cancelAll fun _ _ ↦ trivial) ?_
      (no_beginning (congrArg Table.size callers))
    exact fun w z there ↦ warns_cancelAll _ _ w z there

/-- What the user does forgets nobody. -/
theorem Act.poised (h : s.Poised) (act : Act s t) : t.Poised := by
  cases act with
  | spawn key request => exact h.spawnCall key request
  | drop => exact h.dropCaller _
  | remove key => exact h.remove key
  | shutdown => exact h.shutdown
  | ledger name l =>
    have same : Wakes (fun _ ↦ True) s (s.setLedger name l) :=
      (Wakes.refl s).frame (.inl rfl) rfl rfl rfl rfl rfl rfl
    exact h.use (.ledger name l) rfl same (.of_eq rfl) (no_beginning rfl)

theorem Acts.poised (h : s.Poised) (acts : Acts s t) : t.Poised := by
  induction acts with
  | refl => exact h
  | tail _ act ih => exact act.poised ih

/-- There is nothing to do while every task waits. -/
theorem Attended.calm (h : s.Attended) (idle : Idle s) (found : s.workers.get? w = some y) :
    s.Calm y := by
  refine (h.workers found).resolve_left fun here ↦ ?_
  rw [idle.schedule] at here
  exact absurd here List.not_mem_nil

theorem Attended.stands (h : s.Attended) (idle : Idle s) (known : s.callers.get? c = some x) :
    s.Stands c x := by
  refine (h.callers _ _ known).resolve_left fun attends ↦ ?_
  exact idle.not_called (attends.called idle.rests)

/-- A worker that waits for something is among those for which something is due. -/
theorem mem_alarms_worker {alarm : Alarm} (found : s.workers.get? w = some y)
    (waits : y.activity.alarm? = some alarm) (ahead : s.now < alarm.time) :
    (alarm, Task.worker w) ∈ s.alarms := by
  unfold alarms
  dsimp only
  refine List.mem_filter.mpr ⟨List.mem_append_left _ ?_, decide_eq_true ahead⟩
  refine List.mem_filterMap.mpr ⟨(w, y), mem_toList.mpr found, ?_⟩
  dsimp only
  split
  next idle => rw [idle] at waits; exact absurd waits (by simp [Activity.alarm?])
  next => rw [waits]; rfl

/-- A task for which something is due at a moment is listed there. -/
theorem mem_dueAt_of_mem {alarm : Alarm} (listed : (alarm, τ) ∈ s.alarms)
    (same : alarm.time = time) : τ ∈ s.dueAt time := by
  unfold dueAt
  refine List.mem_map.mpr ⟨(alarm, τ), ?_, rfl⟩
  rw [List.mem_mergeSort]
  exact List.mem_filter.mpr ⟨listed, decide_eq_true same⟩

/-- While every task waits the clock may move as long as no worker is passed over. -/
theorem Attended.pass (h : s.Attended) (idle : Idle s) (workers : t.workers = s.workers)
    (callers : t.callers = s.callers)
    (rings : ∀ {alarm w}, (alarm, .worker w) ∈ s.alarms →
      t.now < alarm.time ∨ .worker w ∈ t.schedule) : t.Attended where
  owned := by
    rw [workers, callers]
    exact h.owned
  workers := by
    intro w y there
    rw [workers] at there
    have calm := h.calm idle there
    by_cases here : .worker w ∈ t.schedule
    · exact .inl here
    · refine .inr ⟨calm.kept, fun alarm waits ↦ ?_⟩
      exact (rings (mem_alarms_worker there waits (calm.ahead alarm waits))).resolve_right here
  callers := by
    intro c x known
    rw [callers] at known
    exact .inr ((h.stands idle known).congr workers)

/-- When the clock moves to the next moment at which something is due, no worker is passed over. -/
theorem jump_rings {alarm : Alarm} (next : s.nextAlarm? = some time)
    (listed : (alarm, .worker w) ∈ s.alarms) :
    (s.jump time).now < alarm.time ∨ .worker w ∈ (s.jump time).schedule := by
  obtain ⟨next', due, bound⟩ := nextAlarm_le_of_mem listed
  obtain rfl := Option.some.inj (next.symm.trans due)
  have now : (s.jump time).now = time := congrArg State.now (bare_jump s time)
  rw [now]
  refine (Nat.lt_or_eq_of_le bound).imp_right fun same ↦ ?_
  have ready : Task.worker w ∈ ((s.dueAt time).foldl wake { s with now := time }).ready :=
    ready_of_called (called_wakeAll (mem_dueAt_of_mem listed same.symm) _)
  refine List.mem_append_right _ ?_
  unfold State.jump
  dsimp only
  split
  next => split <;> exact ready
  next => exact ready

/-- The clock moves to the next moment at which something is due. -/
theorem Attended.jump (h : s.Attended) (idle : Idle s) (next : s.nextAlarm? = some time) :
    (s.jump time).Attended :=
  h.pass idle (congrArg State.workers (bare_jump s time) :)
    (congrArg State.callers (bare_jump s time) :) (jump_rings next)

/-- Time passes before the next moment at which something is due. -/
theorem Attended.wait (h : s.Attended) (idle : Idle s)
    (before : ∀ next, s.nextAlarm? = some next → time < next) :
    Attended { s with now := time } := by
  refine h.pass idle rfl rfl fun listed ↦ .inl ?_
  obtain ⟨next, due, bound⟩ := nextAlarm_le_of_mem listed
  exact Nat.lt_of_lt_of_le (before next due) bound

/-- A call in the foreground is over, or nobody waits for it any more. -/
theorem Attended.finish (h : s.Attended) (idle : Idle s) :
    Attended { s with foreground := none, isSummoned := false } where
  owned := h.owned
  workers := fun found ↦ .inr ((h.calm idle found).congr rfl rfl rfl)
  callers := fun _ _ known ↦ .inr ((h.stands idle known).congr rfl)

/-- The user makes a call and waits for it. -/
theorem Poised.call (h : s.Poised) (alone : s.foreground = none) (key : String)
    (request : Request) :
    Attended
      { (s.addCaller { key, request }).2 with
        foreground := some s.callers.size
        running := some (.caller s.callers.size) } where
  owned := by
    have before : Owned s.bare.workers s.bare.callers := h.owned
    have after := (Use.dispatch (s := s.bare) key request).owned before
    exact after
  workers := by
    intro w y found
    refine (h.workers found).imp (fun here ↦ ?_) fun calm ↦ calm.congr rfl rfl rfl
    rw [schedule, h.rests] at here
    exact List.mem_cons_of_mem _ here
  callers := by
    intro c x known
    have known : (s.callers.push { key, request }).get? c = some x := known
    rcases Table.of_push known with ⟨new, -, -⟩ | known
    · exact .inl (.inl (by rw [new]))
    · rcases h.callers _ _ known with attends | stands
      · rcases attends.called h.rests with ready | ⟨foremost, -⟩
        · exact .inl (.inr (.inl ready))
        · exact absurd foremost (by simp [alone])
      · exact .inr (stands.congr rfl)

end Acting

/-- Nobody is forgotten in a session. -/
theorem Session.attended {policy : Policy} {connector : Ledger.Connector}
    (h : Session policy connector front s) : s.Attended := by
  induction h with
  | start =>
    refine ⟨owned_start policy connector, fun found ↦ ?_, fun c x known ↦ ?_⟩
    · exact absurd ((Table.get?_empty _).symm.trans found) (by simp)
    · exact absurd ((Table.get?_empty _).symm.trans known) (by simp)
  | step _ taken ih => exact ih.step taken
  | act _ idle acts ih => exact (acts.poised ⟨ih, (idle_of_step idle).rests⟩).toAttended
  | call _ idle acts alone key request ih =>
    exact (acts.poised ⟨ih, (idle_of_step idle).rests⟩).call alone key request
  | finish _ idle ih => exact ih.finish (idle_of_step idle)
  | jump _ idle next ih => exact ih.jump (idle_of_step idle) next
  | wait _ idle later before ih => exact ih.wait (idle_of_step idle) before

end Signatory.Service.State
