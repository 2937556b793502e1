import Mathlib.Tactic.Ring
import Signatory.Proofs.Service.Headcount

/-!
# Waiting ends

The numbers of steps and of moves of the clock that a service is given are never used up. While the
clock stands still every task comes to wait before the steps run out, since each step leaves less to
do or puts a task to rest; and each move of the clock sets a task going that has something to do, so
the moves do not run out before the wait is over or nothing will ever be due.
-/

namespace Signatory.Service.State

variable {policy : Policy} {connector : Ledger.Connector} {front : List CallerId} {s t u : State}
  {τ : Task} {w : WorkerId} {y : Worker} {c : CallerId} {x : Caller} {time fuel rate : Nat}
  {finished : State → Bool}

section Settling

/-- No caller comes or goes by a change. -/
theorem Change.size_callers (change : Change s τ t) : t.callers.size = s.callers.size := by
  refine Nat.le_antisymm (Nat.le_of_not_lt fun more ↦ ?_) change.later.callers.size_le
  obtain ⟨x, here⟩ := Option.isSome_iff_exists.mp (Table.get?_isSome.mpr more)
  rcases change.caller here with found | ⟨old, found, -⟩
  · exact Nat.lt_irrefl _ (Table.lt_size found)
  · exact Nat.lt_irrefl _ (Table.lt_size found)

/-- No caller comes or goes by a step. -/
theorem size_callers_step (taken : s.step = some t) : t.callers.size = s.callers.size := by
  rcases step_changes taken with ⟨τ, -, changes⟩ | same
  · change t.bare.callers.size = s.bare.callers.size
    exact Changes.preserve (P := fun u ↦ u.callers.size = s.bare.callers.size)
      (fun same change ↦ change.size_callers.trans same) rfl changes
  · exact congrArg (·.callers.size) same

/-- How many steps can be taken at most before every task waits, if each that leaves less to do
may wake as many tasks as the rate allows for. -/
def leeway (rate : Nat) (s : State) : Nat :=
  s.labour + s.effort 1 * rate + s.pace

/-- The rate allows for all the tasks that there can be before every task waits. -/
def Ample (rate : Nat) (s : State) : Prop :=
  6 * s.callers.size + 2 * (s.effort 1 + 3 * s.workers.size) + 9 ≤ 3 * rate

/-- No more tasks can be ready than there are workers and callers. -/
theorem Listed.pace_le (h : s.Listed) : s.pace ≤ 2 * (s.workers.size + s.callers.size) + 3 := by
  have ready := h.length_le
  have running : s.running.toList.length ≤ 1 := by
    cases s.running <;> simp
  unfold pace
  split <;> omega

/-- Each step brings nearer the state in which every task waits. -/
theorem Session.leeway_lt (h : Session policy connector front s) (ample : s.Ample rate)
    (taken : s.step = some t) : t.leeway rate < s.leeway rate ∧ t.Ample rate := by
  unfold leeway Ample at *
  have callers := size_callers_step taken
  cases running : s.running with
  | none =>
    obtain ⟨⟨_, _, _, rfl⟩, paced⟩ := step_chooses running taken
    exact ⟨Nat.add_lt_add_left paced _, ample⟩
  | some τ =>
    rcases step_toils h.reachable running taken with toils | rfl
    · have labour := toils.labour_lt (Run.later (.single (.step taken)))
      cases toils with
      | acts size less =>
        obtain ⟨less, fewer⟩ := less 1
        have paced := (h.step taken).listed.pace_le
        have gain := Nat.mul_le_mul_right rate less
        rw [Nat.succ_mul] at gain
        omega
      | repeats repeats paced =>
        have less : t.effort 1 ≤ s.effort 1 := repeats.effort_le 1
        have gain := Nat.mul_le_mul_right rate less
        have workers : t.workers.size = s.workers.size := by
          obtain ⟨_, _, _, _, _, _, -, -, -, -, workers⟩ := repeats.repeated
          exact (congrArg Table.size workers).trans Table.size_set
        omega
    · exact ⟨Nat.add_lt_add_left (pace_rest running) _, ample⟩

/-- Every task waits once as many steps have been taken as can be. -/
theorem Session.runReady_waits (h : Session policy connector front s) (ample : s.Ample rate)
    (enough : s.leeway rate ≤ fuel) : (State.runReady fuel s).step = none := by
  induction fuel generalizing s with
  | zero =>
    unfold State.runReady
    cases taken : s.step with
    | none => rfl
    | some t =>
      have less := (h.leeway_lt ample taken).1
      omega
  | succ fuel ih =>
    unfold State.runReady
    split
    next waits => exact waits
    next t taken =>
      obtain ⟨less, ample⟩ := h.leeway_lt ample taken
      exact ih (h.step taken) ample (by omega)

/-- How much is left to do is bounded by how many workers and callers there are and by how often
lookups are attempted. -/
theorem Reachable.labour_le (h : s.Reachable) :
    s.labour ≤ s.attempts * (s.workers.size + 4 * s.callers.size) +
      (2 * s.workers.size + 29 * s.callers.size) := by
  refine Nat.le_trans (h.effort_le s.attempts) (Nat.le_of_eq ?_)
  ring

/-- Every task waits when a service has settled. -/
theorem Session.settles (h : Session policy connector front s) : s.settle.step = none := by
  have few := h.reachable.effort_le 1
  have much := h.reachable.labour_le
  have paced := h.listed.pace_le
  unfold settle stepBound
  dsimp only
  change (State.runReady (64 * _ * _ + 16 * _ * (s.attempts + 1)) s).step = none
  generalize tasks : 4 * s.callers.size + s.workers.size + s.ready.length + 2 = n
  refine @Session.runReady_waits _ _ _ _ _ (6 * n) h ?_ ?_
  · unfold Ample
    omega
  · have acts : s.effort 1 * (6 * n) ≤ 54 * n * n := by
      refine Nat.le_trans (Nat.mul_le_mul_right (6 * n) (show s.effort 1 ≤ 9 * n by omega)) ?_
      exact Nat.le_of_eq (by ring)
    have lookups : s.attempts * (s.workers.size + 4 * s.callers.size) ≤ n * s.attempts := by
      rw [Nat.mul_comm]
      exact Nat.mul_le_mul_right _ (by omega)
    have steps : 64 * n * n + 16 * n * (s.attempts + 1) =
        54 * n * n + 10 * n * n + (16 * (n * s.attempts) + 16 * n) := by ring
    unfold leeway
    omega

end Settling

section Due

/-- What a task waits for is due. -/
def Pressed (s : State) : Task → Prop
  | .worker w => ∃ y alarm, s.workers.get? w = some y ∧ alarm.time ≤ s.now ∧
      (y.activity = .idle ∧ y.idle = alarm ∨ y.activity.alarm? = some alarm)
  | .caller c => ∃ x alarm, s.callers.get? c = some x ∧ alarm.time ≤ s.now ∧
      x.phase.isEnded = false ∧ x.limit = some alarm

/-- What a task waits for is due once the clock has reached its alarm. -/
theorem pressed_of_mem_alarms {alarm : Alarm} (listed : (alarm, τ) ∈ s.alarms)
    (workers : t.workers = s.workers) (callers : t.callers = s.callers)
    (past : alarm.time ≤ t.now) : t.Pressed τ := by
  cases τ with
  | caller c =>
    obtain ⟨-, x, known, live, set⟩ := mem_alarms.mp listed
    exact ⟨x, alarm, callers ▸ known, past, live, set⟩
  | worker w =>
    unfold alarms at listed
    rcases List.mem_append.mp (List.mem_filter.mp listed).1 with worker | caller
    · obtain ⟨⟨v, y⟩, there, named⟩ := List.mem_filterMap.mp worker
      dsimp only at named
      have found := workers ▸ mem_toList.mp there
      split at named
      next idle =>
        obtain ⟨rfl, own⟩ := Prod.mk.inj (Option.some.inj named)
        obtain rfl := Task.worker.inj own
        exact ⟨y, _, found, past, .inl ⟨idle, rfl⟩⟩
      next =>
        obtain ⟨alarm', waits, same⟩ := Option.map_eq_some_iff.mp named
        obtain ⟨rfl, own⟩ := Prod.mk.inj same
        obtain rfl := Task.worker.inj own
        exact ⟨y, _, found, past, .inr waits⟩
    · obtain ⟨⟨c, x⟩, -, named⟩ := List.mem_filterMap.mp caller
      dsimp only at named
      split at named
      next => exact absurd named (by simp)
      next =>
        obtain ⟨_, _, same⟩ := Option.map_eq_some_iff.mp named
        exact absurd (Prod.mk.inj same).2 (by simp)

/-- A task that rests has nothing to do. -/
theorem rests_of_step (running : s.running = some τ) (taken : s.step = some t)
    (rests : t.running = none) : t.Rests τ := by
  cases step_stirs running taken with
  | refl => exact absurd (running.symm.trans rests) (by simp)
  | tail _ stir => exact stir.rests rests

/-- A task does not rest while what it waits for is due. -/
theorem not_rest_of_pressed (h : s.Reachable) (running : s.running = some τ)
    (pressed : s.Pressed τ) : s.step ≠ some s.rest := by
  intro taken
  have rests := rests_of_step running taken rfl
  cases τ with
  | worker w =>
    obtain ⟨y, alarm, found, past, waits⟩ := pressed
    refine Nat.not_lt.mpr past ?_
    rcases waits with ⟨idle, rfl⟩ | waits
    · have result := taken
      unfold State.step at result
      rw [running] at result
      exact (slack_of_rest (Option.some.inj result) (by simp [running]) rfl found idle).early
    · exact (rests y found).ahead alarm waits
  | caller c =>
    obtain ⟨x, alarm, known, past, live, set⟩ := pressed
    have patient := rests x known
    have direct := h.ordered.filed.indirect known
    obtain ⟨limit, limited⟩ := h.modest.limited known set
    cases phase : x.phase with
    | fresh => exact patient.begun phase
    | seeking => exact patient.decided phase
    | replied w r => exact patient.silent w r phase
    | ended e => exact absurd live (by simp [phase, Phase.isEnded])
    | suspended w =>
      obtain ⟨y, found⟩ := h.sole.owned.present known (by rw [phase]; rfl)
      obtain ⟨alarm', set', ahead⟩ :=
        (patient.placeless w y phase found).2 direct limit limited
      obtain rfl := Option.some.inj (set.symm.trans set')
      exact Nat.not_lt.mpr past ahead
    | awaiting w =>
      have still : Unmoved s s.rest := ⟨(Unmoved.refl s).worker, (Unmoved.refl s).caller⟩
      have ends (ending : Ending) : (s.withdraw c x).conclude c ending ≠ s.rest := fun same ↦
        not_unmoved_conclude known live (callers_withdraw s c x) (same.symm ▸ still)
      unfold State.step at taken
      rw [running] at taken
      have result := Option.some.inj taken
      unfold stepCaller at result
      rw [known] at result
      dsimp only at result
      rw [if_neg (by rw [live]; exact Bool.false_ne_true), phase] at result
      dsimp only at result
      split at result
      next => exact ends _ result
      next =>
        unfold pend at result
        rw [direct, limited, set] at result
        dsimp only at result
        rw [if_pos past] at result
        exact ends _ result

/-- A task that is called runs or stays called when the next task begins to run. -/
theorem called_of_choice (rests : s.running = none) (taken : s.step = some t)
    (called : s.Called τ) : t.running = some τ ∨ t.Called τ := by
  unfold State.step at taken
  rw [rests] at taken
  dsimp only at taken
  split at taken
  next υ ready queue =>
    obtain rfl := Option.some.inj taken
    rcases called with here | foremost
    · rw [queue] at here
      rcases List.mem_cons.mp here with rfl | later
      · exact .inl rfl
      · exact .inr (.inl later)
    · exact .inr (.inr foremost)
  next empty =>
    split at taken
    next c foremost =>
      split at taken
      next =>
        obtain rfl := Option.some.inj taken
        rcases called with here | ⟨named, -⟩
        · rw [empty] at here
          exact absurd here List.not_mem_nil
        · rw [foremost] at named
          exact .inl named
      next => exact absurd taken (by simp)
    next => exact absurd taken (by simp)

/-- No more is left to do after any number of steps. -/
theorem labour_runReady_le (h : s.Reachable) (fuel : Nat) :
    (runReady fuel s).labour ≤ s.labour := by
  induction fuel generalizing s with
  | zero => exact Nat.le_refl _
  | succ fuel ih =>
    unfold runReady
    split
    next => exact Nat.le_refl _
    next t taken =>
      refine Nat.le_trans (ih (h.run (.single (.step taken)))) ?_
      cases running : s.running with
      | some τ =>
        rcases step_dwindles h running taken with less | rfl
        · exact Nat.le_of_lt less
        · exact Nat.le_refl _
      | none =>
        obtain ⟨⟨_, _, _, rfl⟩, -⟩ := step_chooses running taken
        exact Nat.le_refl _

/-- A step can be taken while a task is called. -/
theorem step_of_called (called : s.running = some τ ∨ s.Called τ) : s.step ≠ none := by
  intro none
  have idle := idle_of_step none
  rcases called with runs | called
  · exact absurd (idle.rests.symm.trans runs) (by simp)
  · exact idle.not_called called

/-- Less is left to do once every task waits, if a task is called for which something is due. -/
theorem labour_lt_of_pressed (h : s.Reachable) (pressed : s.Pressed τ)
    (called : s.running = some τ ∨ s.Called τ) (waits : (runReady fuel s).step = none) :
    (runReady fuel s).labour < s.labour := by
  induction fuel generalizing s with
  | zero => exact absurd waits (step_of_called called)
  | succ fuel ih =>
    unfold runReady at waits ⊢
    split
    next none => exact absurd none (step_of_called called)
    next t taken =>
      rw [taken] at waits
      have reachable := h.run (.single (.step taken))
      cases running : s.running with
      | some υ =>
        rcases step_dwindles h running taken with less | rfl
        · exact Nat.lt_of_le_of_lt (labour_runReady_le reachable fuel) less
        · -- The task that rests is another one, so the one that is called is called still.
          have other : s.running ≠ some τ := fun own ↦ not_rest_of_pressed h own pressed taken
          refine ih reachable ?_ (.inr (called.resolve_left other)) waits
          cases τ <;> exact pressed
      | none =>
        have called := called.resolve_left (by simp [running])
        have goes := called_of_choice running taken called
        obtain ⟨⟨_, _, _, rfl⟩, -⟩ := step_chooses running taken
        refine ih reachable ?_ goes waits
        cases τ <;> exact pressed

/-- Whoever is due when the clock moves runs or is called. -/
theorem called_jump (due : τ ∈ s.dueAt time) :
    (s.jump time).running = some τ ∨ (s.jump time).Called τ := by
  have called := called_wakeAll due { s with now := time }
  unfold State.jump
  dsimp only
  generalize (s.dueAt time).foldl State.wake { s with now := time } = u at called ⊢
  split
  next c foremost =>
    split
    next =>
      rcases called with ready | ⟨named, -⟩
      · exact .inr (.inl ready)
      · rw [foremost] at named
        exact .inl named
    next => exact .inr called
  next => exact .inr called

/-- Less is left to do once the clock has moved and every task waits again. -/
theorem Session.labour_jump_lt (h : Session policy connector front s) (idle : s.step = none)
    (next : s.nextAlarm? = some time) : (s.jump time).settle.labour < s.labour := by
  have moved := h.jump idle next
  have same := congrArg labour (bare_jump s time)
  change (s.jump time).labour = s.labour at same
  unfold nextAlarm? at next
  obtain ⟨⟨alarm, τ⟩, listed, now⟩ := List.mem_map.mp (List.min?_mem next)
  have past : alarm.time ≤ (s.jump time).now :=
    Nat.le_of_eq (now.trans (congrArg State.now (bare_jump s time)).symm)
  have pressed := pressed_of_mem_alarms listed (congrArg State.workers (bare_jump s time) :)
    (congrArg State.callers (bare_jump s time) :) past
  rw [← same]
  exact labour_lt_of_pressed moved.reachable pressed (called_jump (mem_dueAt_of_mem listed now))
    moved.settles

end Due

section Awaiting

/-- A service in which every task waits is left as it is. -/
theorem settle_of_idle (idle : s.step = none) : s.settle = s := by
  unfold settle
  cases s.stepBound with
  | zero => rfl
  | succ fuel =>
    unfold State.runReady
    rw [idle]

/-- How long it takes until a service has settled does not exceed what the clock is given. -/
theorem Reachable.labour_lt_jumpBound (h : s.Reachable) : s.settle.labour < s.jumpBound := by
  have much := h.labour_le
  have settled := labour_runReady_le h s.stepBound
  change s.settle.labour ≤ s.labour at settled
  change s.settle.labour < 64 * (s.callers.size + s.workers.size + 2) * (s.attempts + 8)
  have room : 64 * (s.callers.size + s.workers.size + 2) * (s.attempts + 8) =
      s.attempts * (64 * (s.callers.size + s.workers.size + 2)) +
        512 * (s.callers.size + s.workers.size + 2) := by ring
  have lookups : s.attempts * (s.workers.size + 4 * s.callers.size) ≤
      s.attempts * (64 * (s.callers.size + s.workers.size + 2)) :=
    Nat.mul_le_mul_left _ (by omega)
  omega

/-- What waiting for some condition comes to: what comes about by itself, until every task waits and
the condition holds or nothing will ever be due. -/
structure Awaits (finished : State → Bool) (s t : State) : Prop where
  ticks : Ticks s t
  idle : t.step = none
  comes : finished t = true ∨ t.tick = none

/-- The clock is moved often enough if it may be moved as often as there is something left to do
once every task waits. -/
theorem Session.runUntil (h : Session policy connector front s)
    (enough : s.settle.labour < fuel) : Awaits finished s (s.runUntil finished fuel) := by
  induction fuel generalizing s with
  | zero => exact absurd enough (Nat.not_lt_zero _)
  | succ fuel ih =>
    have settled : Session policy connector front s.settle := h.runReady _
    have idle := h.settles
    have ticks : Ticks s s.settle := ticks_runReady _ s
    unfold State.runUntil
    dsimp only
    generalize s.settle = u at settled idle ticks enough ⊢
    split
    next holds => exact ⟨ticks, idle, .inl holds⟩
    next =>
      have tick : u.tick = u.nextAlarm?.map u.jump := by
        unfold State.tick
        rw [idle]
      split
      next none => exact ⟨ticks, idle, .inr (by rw [tick, none]; rfl)⟩
      next time next =>
        have less := settled.labour_jump_lt idle next
        have rest := ih (settled.jump idle next) (by omega)
        refine ⟨ticks.trans (.head ?_ rest.ticks), rest.idle, rest.comes⟩
        rw [tick, next]
        rfl

/-- Whatever is waited for, it has come about in the end, or nothing will ever be due. -/
theorem Session.await (h : Session policy connector front s) (finished : State → Bool) :
    Awaits finished s (s.await finished) := by
  have waits : Awaits finished s (s.runUntil finished s.jumpBound) :=
    h.runUntil h.reachable.labour_lt_jumpBound
  unfold State.await
  rwa [settle_of_idle waits.idle]

end Awaiting

end Signatory.Service.State
