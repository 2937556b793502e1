import Signatory.Proofs.Service.Survival
import Signatory.Proofs.Service.Waiting

/-!
# One call after the other

A user who makes a call, waits for it and only then goes on finds every task waiting in between. The
call is over by then, for nobody is left waiting when nothing will ever be due; and as no caller is
dropped, it has a result, if a mailbox can be as large as the policy asks for.
-/

namespace Signatory.Service.State

variable {policy : Policy} {connector : Ledger.Connector} {front : List CallerId} {s t : State}
  {τ : Task} {c : CallerId} {x old : Caller} {ending : Ending}

section Unbroken

/-- Nobody has been dropped, and every call that is over has a result or has crashed. -/
structure Unbroken (s : State) : Prop where
  kept : ∀ {c x}, s.callers.get? c = some x → x.dropped = false
  ends : ∀ {c x ending}, s.callers.get? c = some x → x.phase = .ended ending →
    (∃ r, ending = .result r) ∨ ending = .crashed

/-- A call that is made by way of the directory ends with a result, unless it crashes or its caller
is dropped. -/
theorem Ends.result (ends : Ends s c x ending) (indirect : x.direct = none)
    (kept : x.dropped = false) : (∃ r, ending = .result r) ∨ ending = .crashed := by
  cases ends with
  | concludes cause =>
    cases cause with
    | result => exact .inl ⟨_, rfl⟩
    | rejected _ direct => exact absurd (indirect.symm.trans direct) (by simp)
    | lost _ direct => exact absurd (indirect.symm.trans direct) (by simp)
    | cancelled => exact .inl ⟨_, rfl⟩
    | crashed => exact .inr rfl
    | closed _ direct => exact absurd (indirect.symm.trans direct) (by simp)
  | closed _ direct => exact absurd (indirect.symm.trans direct) (by simp)
  | notFound => exact .inl ⟨_, rfl⟩
  | lost => exact .inl ⟨_, rfl⟩
  | givesUp _ cause =>
    cases cause with
    | dropped dropped => exact absurd (kept.symm.trans dropped) (by simp)
    | timeout => exact .inl ⟨_, rfl⟩

/-- No caller is dropped by a change. -/
theorem Moves.dropped (moves : Moves s t c old x) : x.dropped = old.dropped := by
  cases moves <;> rfl

/-- Calls stay unbroken whatever a worker or a caller does. -/
theorem Change.unbroken (h : s.Unbroken) (filed : s.Filed) (change : Change s τ t) :
    t.Unbroken where
  kept := by
    intro c x here
    rcases change.caller here with found | ⟨old, found, moves⟩
    · exact h.kept found
    · exact moves.dropped.trans (h.kept found)
  ends := by
    intro c x ending here past
    obtain ⟨old, found, same | ends⟩ := change.ends here past
    · exact h.ends found same
    · exact ends.result (filed.indirect found) (h.kept found)

/-- Only the callers matter for whether calls are unbroken. -/
theorem Unbroken.congr (h : s.Unbroken) (same : t.callers = s.callers) : t.Unbroken where
  kept := fun here ↦ h.kept (same ▸ here)
  ends := fun here ↦ h.ends (same ▸ here)

/-- Calls stay unbroken when another one begins. -/
theorem Unbroken.dispatch (h : s.Unbroken) (key : String) (request : Request) :
    (s.addCaller { key, request }).2.Unbroken := by
  have fresh {c : CallerId} {x : Caller}
      (here : (s.callers.push { key, request }).get? c = some x) :
      x = { key, request } ∨ s.callers.get? c = some x :=
    (Table.of_push here).imp_left fun new ↦ new.2.1
  refine ⟨fun here ↦ ?_, fun here past ↦ ?_⟩
  · rcases fresh here with rfl | found
    · rfl
    · exact h.kept found
  · rcases fresh here with rfl | found
    · exact absurd past (by simp)
    · exact h.ends found past

/-- Calls stay unbroken whatever comes about by itself. -/
theorem Ticks.unbroken (h : s.Unbroken) (reachable : s.Reachable) (ticks : Ticks s t) :
    t.Unbroken := by
  induction ticks with
  | refl => exact h
  | @tail t u before tick ih =>
    have there := reachable.run (Ticks.run before)
    unfold State.tick at tick
    split at tick
    next taken =>
      obtain rfl := Option.some.inj tick
      rcases step_changes taken with ⟨τ, -, changes⟩ | same
      · have kept := Changes.preserve (P := fun u ↦ u.Filed ∧ u.Unbroken)
          (fun h change ↦ ⟨change.filed h.1, change.unbroken h.2 h.1⟩)
          ⟨there.bare.ordered.filed, ih.congr rfl⟩ changes
        exact kept.2.congr rfl
      · exact ih.congr (congrArg State.callers same :)
    next =>
      obtain ⟨time, -, rfl⟩ := Option.map_eq_some_iff.mp tick
      exact ih.congr (congrArg State.callers (bare_jump t time) :)

end Unbroken

/-- Whether a call is over is told by the phase of its caller. -/
theorem hasEnded_of_found (found : s.callers.get? c = some x) :
    s.hasEnded c = x.phase.isEnded := by
  unfold hasEnded ending?
  rw [found]
  cases phase : x.phase <;> simp [phase, Phase.isEnded]

/-- A call is over once it has been waited for. -/
theorem Session.hasEnded_join (h : Session policy connector front s) (known : c < s.callers.size) :
    (s.join c).hasEnded c = true := by
  have waits := h.await fun t ↦ t.hasEnded c
  change Awaits _ s (s.join c) at waits
  have after := h.ticks waits.ticks
  have there := Nat.lt_of_lt_of_le known waits.ticks.run.later.callers.size_le
  obtain ⟨x, found⟩ := Option.isSome_iff_exists.mp (Table.get?_isSome.mpr there)
  refine waits.comes.elim id fun still ↦ ?_
  rw [hasEnded_of_found found]
  exact after.attended.caller_over after.watched after.reachable.emptied still found

section Between

/-- The call in the foreground stays there while tasks run. -/
theorem foreground_runReady (fuel : Nat) (s : State) :
    (runReady fuel s).foreground = s.foreground := by
  induction fuel generalizing s with
  | zero => rfl
  | succ fuel ih =>
    unfold runReady
    split
    next => rfl
    next t taken =>
      refine (ih t).trans ?_
      cases running : s.running with
      | none =>
        obtain ⟨⟨_, _, _, rfl⟩, -⟩ := step_chooses running taken
        rfl
      | some τ =>
        have stirs := step_stirs running taken
        clear taken
        induction stirs with
        | refl => rfl
        | tail _ stir same => exact stir.wakes.foreground.trans same

/-- No step can be taken while no task runs or is ready and no call is in the foreground. -/
theorem step_eq_none (rests : s.running = none) (empty : s.ready = [])
    (alone : s.foreground = none) : s.step = none := by
  unfold State.step
  rw [rests, empty, alone]

/-- A service whose user makes one call after the other, between two of them. -/
structure Between (policy : Policy) (connector : Ledger.Connector) (s : State) : Prop where
  session : ∃ front, Session policy connector front s
  idle : s.step = none
  alone : s.foreground = none
  unbroken : s.Unbroken

/-- A service is between calls before the first one. -/
theorem between_start (policy : Policy) (connector : Ledger.Connector) :
    Between policy connector (start policy connector) where
  session := ⟨[], .start⟩
  idle := rfl
  alone := rfl
  unbroken :=
    ⟨fun found ↦ absurd ((Table.get?_empty _).symm.trans found) (by simp),
      fun found ↦ absurd ((Table.get?_empty _).symm.trans found) (by simp)⟩

/-- A call that is waited for ends with a result or crashes, and leaves the service between
calls. -/
theorem Between.call (h : Between policy connector s) (key : String) (request : Request) :
    Between policy connector (s.call { key, request }).2 ∧
      ∃ ending, (s.call { key, request }).2.ending? (s.call { key, request }).1 = some ending ∧
        ((∃ r, ending = .result r) ∨ ending = .crashed) := by
  obtain ⟨front, session⟩ := h.session
  have begun := session.call h.idle .refl h.alone key request
  have known : s.callers.size < (s.callers.push { key, request }).size := by
    rw [Table.size_push]
    exact Nat.lt_succ_self _
  have fresh := h.unbroken.dispatch key request
  unfold State.call
  dsimp only [State.addCaller] at begun fresh ⊢
  have waits := begun.await fun t ↦ t.hasEnded s.callers.size
  have past := begun.hasEnded_join known
  change Awaits _ _ (State.join _ _) at waits
  generalize State.join _ _ = t at waits past ⊢
  have idle := idle_of_step waits.idle
  have unbroken := waits.ticks.unbroken (fresh.congr (by rfl)) begun.reachable
  obtain ⟨ending, ended⟩ := Option.isSome_iff_exists.mp past
  obtain ⟨x, found, phase⟩ := phase_of_ending? ended
  exact ⟨⟨⟨_, (begun.ticks waits.ticks).finish waits.idle⟩,
    step_eq_none idle.rests idle.ready rfl, rfl, unbroken.congr rfl⟩,
    ending, ended, unbroken.ends found phase⟩

/-- A call that is waited for ends with a result if no connector crashes and a mailbox can be as
large as the policy asks for. -/
theorem Between.answers (h : Between policy connector s)
    (sound : ∀ endpoint, (connector endpoint).outcome ≠ .crash)
    (fits : policy.queueCapacity ≤ capacityLimit) (key : String) (request : Request) :
    Between policy connector (s.call { key, request }).2 ∧
      ∃ r, (s.call { key, request }).2.ending? (s.call { key, request }).1 = some (.result r) := by
  obtain ⟨after, ending, ended, ⟨r, rfl⟩ | rfl⟩ := h.call key request
  · exact ⟨after, r, ended⟩
  · obtain ⟨front, session⟩ := after.session
    have later := session.run.later
    have sturdy := session.reachable.sturdy (later.connector ▸ sound)
    obtain ⟨x, found, past⟩ := phase_of_ending? ended
    have large := sturdy.crashed found past
    rw [later.policy] at large
    exact absurd fits (Nat.not_le.mpr large)

/-- Removing a worker leaves the calls as they are. -/
theorem callers_remove (s : State) (key : String) : (s.remove key).2.callers = s.callers := by
  unfold State.remove
  split
  next => rfl
  next w _ =>
    have kept := (kept_cancel_detach s key w).2
    dsimp only
    generalize (s.detach key w).2.cancel w = u at kept ⊢
    exact kept

/-- Removing a worker and letting it leave is done between calls. -/
theorem Between.remove (h : Between policy connector s) (key : String) :
    Between policy connector (s.remove key).2.settle := by
  obtain ⟨front, session⟩ := h.session
  have removed := session.act h.idle (.single (.remove key))
  have unbroken := h.unbroken.congr (callers_remove s key)
  have foreground : (s.remove key).2.foreground = none :=
    (admits_remove key : Admits front front s _).wakes.foreground.trans h.alone
  refine ⟨⟨front, removed.runReady _⟩, removed.settles,
    (foreground_runReady _ _).trans foreground, ?_⟩
  exact (ticks_runReady _ _).unbroken unbroken removed.reachable

/-- Nothing is left to do after removing a worker that there is not. -/
theorem Between.notFound (h : Between policy connector s) {key : String}
    (unknown : s.find? key = none) : Between policy connector (s.remove key).2 := by
  have idle : (s.remove key).2.step = none := by
    unfold State.remove
    rw [unknown]
    have rests := idle_of_step h.idle
    exact step_eq_none rests.rests rests.ready h.alone
  exact settle_of_idle idle ▸ h.remove key

end Between

end Signatory.Service.State
