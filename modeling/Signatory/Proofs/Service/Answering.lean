import Signatory.Proofs.Service.Replay

/-!
# What a step that gives an answer does

Only a step of the worker itself gives an answer of the worker. The answer is to an envelope that
the worker had; afterwards the worker is idle, its mailbox is as open as before, and the directory
is as it was.
-/

namespace Signatory.Service.State

variable {s t : State} {τ : Task} {w : WorkerId} {c : CallerId} {y : Worker} {r : Result}

/-- What other tasks do gives no answer of a worker. -/
theorem Changes.history_of_other (changes : Changes τ s t) (other : τ ≠ .worker w) :
    t.history w = s.history w := by
  induction changes with
  | refl => rfl
  | tail _ change ih => exact (change.apart other).1.trans ih

/-- A worker has answered an envelope that it had, and looks for something else to do. -/
structure Answered (s t : State) (w : WorkerId) (y : Worker) (e : Envelope) (r : Result)
    (z : Worker) : Prop where
  inside : e ∈ y.envelopes
  answers : Answers s y e (r, z.identity)
  here : t.workers.get? w = some z
  key : z.key = y.key
  idle : z.activity = .idle
  closed : z.mailbox.closed = y.mailbox.closed
  cancelled : z.cancelled = y.cancelled
  directory : t.directory = s.directory

/-- A worker that gives an answer has answered one of its envelopes, unless one of them was meant
for another worker. -/
theorem Change.answering (change : Change s (.worker w) t) (found : s.workers.get? w = some y)
    (own : ∀ e ∈ y.envelopes, e.key = y.key) (history : t.history w = s.history w ++ [(c, r)]) :
    ∃ e z, e.caller = c ∧ Answered s t w y e r z := by
  have silent {p : Prop} (same : t.history w = s.history w) : p := by
    rw [same] at history
    exact absurd history (by simp)
  have told {e : Envelope} {q : Result} (more : t.history w = s.history w ++ [(e.caller, q)]) :
      e.caller = c ∧ q = r := by
    rw [history] at more
    obtain ⟨same, -⟩ := List.cons.inj (List.append_cancel_left more)
    obtain ⟨caller, result⟩ := Prod.mk.inj same
    exact ⟨caller.symm, result.symm⟩
  cases change with
  | leave =>
    apply silent
    rw [State.history, events, List.map_append, List.filterMap_append, answer?_returns]
    rfl
  | misroute takes waits foreign =>
    obtain rfl := Option.some.inj (found.symm.trans takes.found)
    exact absurd (own _ (takes.envelopes ▸ List.mem_cons_self)) foreign
  | @serve _ worker e rest deadline done accepts serves =>
    obtain rfl := Option.some.inj (found.symm.trans accepts.found)
    obtain ⟨caller, rfl⟩ := told (history_answered.trans (congrArg _ (if_pos rfl)))
    exact ⟨e, { y with mailbox := rest.grant.2, idle := deadline, identity := done.2,
                       activity := .idle }, caller,
      { inside := accepts.toTakes.envelopes ▸ List.mem_cons_self
        answers := .served serves
        here := Table.get?_set_self found
        key := rfl
        idle := rfl
        closed := accepts.toTakes.closed
        cancelled := rfl
        directory := rfl }⟩
  | @finish _ worker e done ledgers known finishes =>
    obtain rfl := Option.some.inj (found.symm.trans known)
    obtain ⟨caller, rfl⟩ := told (history_answered.trans (congrArg _ (if_pos rfl)))
    exact ⟨e, { y with identity := done.2, activity := .idle }, caller,
      { inside := List.mem_append_left _ (Option.mem_toList.mpr finishes.hand)
        answers := .finished finishes
        here := Table.get?_set_self found
        key := rfl
        idle := rfl
        closed := rfl
        cancelled := rfl
        directory := rfl }⟩
  | _ => exact silent rfl

/-- A step in which a worker gives an answer is one of the worker, which answers one of its
envelopes. -/
theorem answered_of_step (found : s.workers.get? w = some y)
    (own : ∀ e ∈ y.envelopes, e.key = y.key) (taken : s.step = some t)
    (history : t.history w = s.history w ++ [(c, r)]) :
    ∃ e z, e.caller = c ∧ Answered s.bare t.bare w y e r z := by
  have moved : t.history w ≠ s.history w := by
    rw [history]
    simp
  rcases step_changes taken with ⟨τ, running, changes⟩ | same
  · by_cases self : τ = .worker w
    · subst self
      have goes : s.stepWorker w = t := by
        unfold step at taken
        rw [running] at taken
        exact Option.some.inj taken
      rcases stepWorker_works running found with stir | ⟨⟨e, inside, foreign⟩, -⟩
      · exact (goes ▸ stir).change.answering found own history
      · exact absurd (own e inside) foreign
    · exact absurd (changes.history_of_other self) moved
  · exact absurd (congrArg (·.history w) same) moved

end Signatory.Service.State
