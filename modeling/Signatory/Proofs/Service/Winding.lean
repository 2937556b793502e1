import Signatory.Proofs.Service.Closing
import Signatory.Proofs.Service.Resting

/-!
# Winding up

A service that has been shut down finishes what is in hand and refuses the rest, and comes to an end
by itself.
-/

namespace Signatory.Service.State

variable {s : State} {c : CallerId}

/-- What is left after a shutdown, whatever happens and in whatever order. No worker is created and
none accepts a request. What a worker has in its hand it answers, unless its connector crashes, and
the answer reaches the caller, unless the caller has given up. Every call whose request had not been
accepted is cancelled, unless its caller is dropped or its time is over or a worker of its key has
died; but if the request was with the last worker that it could be offered to, there is no worker
for it. In a session nothing but the clock is needed for all this: every worker leaves or dies, and
every call comes to an end. -/
theorem Reachable.shuts_down (h : s.Reachable) (shut : s.isShutDown = true) :
    (∀ t, Run s t → Closes s t) ∧
      ∀ policy connector front, Session policy connector front s →
        ∃ t, Ticks s t ∧ t.tick = none ∧ t.Resolved :=
  ⟨fun _ run ↦ (h.closing shut).closes run, fun _ _ _ session ↦ session.resolves⟩

/-- A call of which no acceptance is recorded has not been accepted. -/
theorem unserved_of_events (none : s.events.all fun event ↦
      match event with
      | .accepted d _ => d ≠ c
      | _ => true)
    (live : ∀ x, s.callers.get? c = some x → x.phase.isEnded = false) : s.Unserved c := by
  refine ⟨fun w accepted ↦ ?_, live⟩
  have apart := List.all_eq_true.mp none _ (mem_acceptances.mp accepted)
  exact absurd rfl (of_decide_eq_true apart)

/-- A service is shut down while a request waits for the first worker. -/
theorem Reachable.shuts_down_first :
    ∃ s t : State, s.Reachable ∧ s.isShutDown = true ∧ s.Unserved 1 ∧ Ticks s t ∧ Closes s t ∧
      (∃ x, t.callers.get? 1 = some x ∧ x.phase = .ended (.result (.error .cancelled))) ∧
      ∃ u, Ticks s u ∧ u.tick = none ∧ u.Resolved := by
  have called := ((Session.start : Session {} trialConnector [] _).act rfl
    (.tail (.single (.spawn "treasury" (trialGenerate "slow"))) (.spawn "treasury" trialSign))).runReady
      40
  have shut := (called.act rfl (.single .shutdown)).runReady 40
  have ticks := (shut.advance rfl (show _ = some 100 from rfl) rfl (by decide) 40).2
  obtain ⟨closes, resolves⟩ := Reachable.shuts_down shut.reachable rfl
  refine ⟨_, _, shut.reachable, rfl, unserved_of_events rfl ?_, ticks, closes _ ticks.run, ?_,
    resolves _ _ _ shut⟩
  · rintro x ⟨⟩
    rfl
  · exact ⟨_, rfl, rfl⟩

/-- A service is shut down while a request waits for the third worker, after the first and the
second have been removed; then there is no worker for it, rather than that it is cancelled. -/
theorem Session.not_cancelled :
    ∃ s t, Session {} trialConnector [] s ∧ s.isShutDown = true ∧ s.Unserved 1 ∧ Ticks s t ∧
      ∃ x, t.callers.get? 1 = some x ∧
        x.phase = .ended (.result (.error (.notFound "treasury"))) := by
  have called := ((Session.start : Session {} trialConnector [] _).act rfl
    (.tail (.single (.spawn "treasury" (trialGenerate "slow"))) (.spawn "treasury" trialSign))).runReady
      40
  have replace (s : State) : Acts s _ :=
    .tail (.single (.remove "treasury")) (.spawn "treasury" (trialGenerate "slow"))
  have waited := called.wait rfl (show 0 ≤ 50 by decide) (by rintro next ⟨⟩; decide)
  have second := (waited.act rfl (replace _)).runReady 40
  have left := (second.advance rfl (show _ = some 100 from rfl) rfl (by decide) 40).1
  have third := (left.act rfl (replace _)).runReady 40
  have gone := (third.advance rfl (show _ = some 150 from rfl) rfl (by decide) 40).1
  have shut := (gone.act rfl (.single .shutdown)).runReady 40
  have ticks := (shut.advance rfl (show _ = some 200 from rfl) rfl (by decide) 40).2
  refine ⟨_, _, shut, rfl, unserved_of_events rfl ?_, ticks, _, rfl, rfl⟩
  rintro x ⟨⟩
  rfl

end Signatory.Service.State
