import Signatory.Proofs.Service.Directory

/-!
# How calls end

A call ends by its caller's own decision: it has a reply, it finds no worker, or it gives up. What
it ends with is what the worker answered, or says which of the others was the case. Only the loss of
a worker ends a call with a violation.
-/

namespace Signatory.Service.State

variable {s t : State} {τ : Task} {w v : WorkerId} {worker y : Worker} {c : CallerId} {x : Caller}
  {r : Result} {ending : Ending}

/-- A call that is over is in its last phase. -/
theorem phase_of_ending? (past : s.ending? c = some ending) :
    ∃ x, s.callers.get? c = some x ∧ x.phase = .ended ending := by
  unfold ending? at past
  split at past
  next x found =>
    split at past
    next e phase => exact ⟨x, found, Option.some.inj past ▸ phase⟩
    next => exact absurd past (by simp)
  next => exact absurd past (by simp)

/-- How a call comes to end. -/
inductive Ends (s : State) (c : CallerId) (x : Caller) : Ending → Prop
  | concludes {ending : Ending} (cause : Concludes s x ending) : Ends s c x ending
  | closed {v w : WorkerId} (offers : Offers s c x w) (direct : x.direct = some v) :
    Ends s c x .closed
  | notFound (seeking : x.phase = .seeking) (direct : x.direct = none)
    (cause : x.tries = 0 ∨ s.isShutDown = false ∧ s.find? x.key = none ∧
      x.request.createsWorker = false) :
    Ends s c x (.result (.error (.notFound x.key)))
  | lost {w : WorkerId} (replied : x.phase = .replied w .lost) :
    Ends s c x (.result (.error (.violation (.workerStopped x.key x.request.operation))))
  | givesUp {ending : Ending} (live : x.phase.isEnded = false) (cause : GivesUp s x ending) :
    Ends s c x ending

/-- A call that ends was not over. -/
theorem Ends.live (ends : Ends s c x ending) : x.phase.isEnded = false := by
  cases ends with
  | concludes cause => exact cause.live
  | closed offers => rw [offers.seeking]; rfl
  | notFound seeking => rw [seeking]; rfl
  | lost replied => rw [replied]; rfl
  | givesUp live => exact live

/-- A call that is over was over before, or it has come to end. -/
theorem Change.ends (change : Change s τ t) (here : t.callers.get? c = some x)
    (past : x.phase = .ended ending) :
    ∃ old, s.callers.get? c = some old ∧ (old.phase = .ended ending ∨ Ends s c old ending) := by
  by_cases own : τ = .caller c
  case neg =>
    obtain ⟨old, found, rfl | ⟨w, r, -, rfl⟩⟩ := change.stays own here
    · exact ⟨_, found, .inl past⟩
    · exact absurd past (by simp)
  subst own
  cases change with
  | rest => exact ⟨x, here, .inl past⟩
  | spawn => exact ⟨x, here, .inl past⟩
  | begin found => exact absurd past (by rw [← Table.eq_of_set found here]; simp)
  | beginDirect found => exact absurd past (by rw [← Table.eq_of_set found here]; simp)
  | push offers => exact absurd past (by rw [← Table.eq_of_set offers.found here]; simp)
  | suspend offers => exact absurd past (by rw [← Table.eq_of_set offers.found here]; simp)
  | refuse offers => exact absurd past (by rw [← Table.eq_of_set offers.found here]; simp)
  | refuseDirect offers shut direct =>
    rw [← Table.eq_of_set offers.found here] at past
    exact ⟨_, offers.found, .inr (Phase.ended.inj past ▸ .closed offers direct)⟩
  | occupy known => exact absurd past (by rw [← Table.eq_of_set known here]; simp)
  | turnAway found => exact absurd past (by rw [← Table.eq_of_set found here]; simp)
  | retry found => exact absurd past (by rw [← Table.eq_of_set found here]; simp)
  | limit found waiting =>
    rw [← Table.eq_of_set found here] at past
    exact ⟨_, found, .inl past⟩
  | conclude found cause =>
    rw [← Table.eq_of_set found here] at past
    exact ⟨_, found, .inr (Phase.ended.inj past ▸ .concludes cause)⟩
  | notFound found seeking direct cause =>
    rw [← Table.eq_of_set found here] at past
    exact ⟨_, found, .inr (Phase.ended.inj past ▸ .notFound seeking direct cause)⟩
  | lose found replied =>
    rw [← Table.eq_of_set found here] at past
    exact ⟨_, found, .inr (Phase.ended.inj past ▸ .lost replied)⟩
  | giveUp found live apart cause =>
    rw [← Table.eq_of_set found here] at past
    exact ⟨_, found, .inr (Phase.ended.inj past ▸ .givesUp live cause)⟩
  | withdraw found suspended cause =>
    rw [← Table.eq_of_set found here] at past
    exact ⟨_, found, .inr (Phase.ended.inj past ▸ .givesUp (by rw [suspended]; rfl) cause)⟩

/-- A use ends no call. -/
theorem Use.ends (use : Use s t) (here : t.callers.get? c = some x)
    (past : x.phase = .ended ending) :
    ∃ old, s.callers.get? c = some old ∧ old.phase = .ended ending := by
  rcases use.becomes here with ⟨-, key, request, rfl⟩ | ⟨old, found, rfl | rfl⟩
  · exact absurd past (by simp)
  · exact ⟨_, found, past⟩
  · exact ⟨_, found, past⟩

/-- Callers that get a reply are as they were otherwise. -/
theorem replied_of_replyAll {q : Reply} {es : List Envelope}
    (here : (replyAll w q es s.callers).get? c = some x) :
    ∃ old, s.callers.get? c = some old ∧ (x = old ∨ x = { old with phase := .replied w q }) := by
  rw [get?_replyAll] at here
  split at here
  next =>
    obtain ⟨old, found, rfl⟩ := Option.map_eq_some_iff.mp here
    refine ⟨old, found, ?_⟩
    unfold Caller.reply
    split
    next => exact .inr rfl
    next => exact .inl rfl
  next => exact ⟨x, here, .inl rfl⟩

/-- A caller that has an answer was given it by a worker. -/
theorem Change.replied (change : Change s τ t) (here : t.callers.get? c = some x)
    (replied : x.phase = .replied w (.answered r)) :
    (∃ old, s.callers.get? c = some old ∧ old.phase = .replied w (.answered r)) ∨
      .answered c w r ∈ t.events := by
  have told {v : WorkerId} {e : Envelope} {q : Result} {journal : List Entry}
      (events : .answered e.caller v q ∈ journal.map (·.event))
      (here : (s.callers.update e.caller (Caller.reply v (.answered q))).get? c = some x) :
      (∃ old, s.callers.get? c = some old ∧ old.phase = .replied w (.answered r)) ∨
        .answered c w r ∈ journal.map (·.event) := by
    obtain ⟨old, found, ⟨rfl, rfl⟩ | ⟨-, rfl⟩⟩ := Table.of_update here
    · unfold Caller.reply at replied
      split at replied
      next waits =>
        obtain ⟨rfl, answer⟩ := Phase.replied.inj replied
        obtain rfl := Reply.answered.inj answer
        exact .inr events
      next => exact .inl ⟨old, found, replied⟩
    · exact .inl ⟨x, found, replied⟩
  have returned {v : WorkerId} {q : Reply} {es : List Envelope} (apart : .answered r ≠ q)
      (here : (replyAll v q es s.callers).get? c = some x) :
      ∃ old, s.callers.get? c = some old ∧ old.phase = .replied w (.answered r) := by
    obtain ⟨old, found, becomes⟩ := replied_of_replyAll here
    refine ⟨old, found, ?_⟩
    rcases becomes with rfl | rfl
    · exact replied
    · exact absurd (Phase.replied.inj replied).2.symm apart
  have kept {d : CallerId} {old next : Caller} (found : s.callers.get? d = some old)
      (apart : ∀ q, next.phase ≠ .replied w q)
      (here : (s.callers.set d next).get? c = some x) :
      ∃ old, s.callers.get? c = some old ∧ old.phase = .replied w (.answered r) := by
    rcases Table.of_set found here with ⟨-, rfl⟩ | ⟨-, here⟩
    · exact absurd replied (apart _)
    · exact ⟨x, here, replied⟩
  cases change with
  | leave => exact .inl (returned (by simp) here)
  | die => exact .inl (returned (by simp) here)
  | misroute => exact told List.mem_cons_self here
  | serve => exact told List.mem_cons_self here
  | finish => exact told List.mem_cons_self here
  | begin found => exact .inl (kept found (by simp) here)
  | beginDirect found => exact .inl (kept found (by simp) here)
  | push offers => exact .inl (kept offers.found (by simp) here)
  | suspend offers => exact .inl (kept offers.found (by simp) here)
  | refuse offers => exact .inl (kept offers.found (by simp) here)
  | refuseDirect offers => exact .inl (kept offers.found (by simp) here)
  | occupy known => exact .inl (kept known (by simp) here)
  | turnAway found => exact .inl (kept found (by simp) here)
  | retry found => exact .inl (kept found (by simp) here)
  | limit found waiting =>
    refine .inl (kept found (fun q same ↦ ?_) here)
    rcases waiting with phase | phase
    · exact absurd (phase.symm.trans same) (by simp)
    · exact absurd (phase.symm.trans same) (by simp)
  | conclude found => exact .inl (kept found (by simp) here)
  | notFound found => exact .inl (kept found (by simp) here)
  | lose found => exact .inl (kept found (by simp) here)
  | giveUp found => exact .inl (kept found (by simp) here)
  | withdraw found => exact .inl (kept found (by simp) here)
  | rest => exact .inl ⟨x, here, replied⟩
  | skip => exact .inl ⟨x, here, replied⟩
  | connect => exact .inl ⟨x, here, replied⟩
  | lookup => exact .inl ⟨x, here, replied⟩
  | again => exact .inl ⟨x, here, replied⟩
  | spawn => exact .inl ⟨x, here, replied⟩

/-- Whoever has an answer was given it by the worker that it comes from. -/
def Heard (s : State) : Prop :=
  ∀ {c x w r}, s.callers.get? c = some x → x.phase = .replied w (.answered r) →
    .answered c w r ∈ s.events

/-- Nobody gets an answer by a change that no worker has given. -/
theorem Change.heard (h : s.Heard) (change : Change s τ t) : t.Heard := by
  intro c x w r here replied
  rcases change.replied here replied with ⟨old, found, phase⟩ | new
  · exact change.later.events_subset (h found phase)
  · exact new

/-- Nobody gets an answer by a use. -/
theorem Use.heard (h : s.Heard) (use : Use s t) : t.Heard := by
  intro c x w r here replied
  refine use.later.events_subset ?_
  rcases use.becomes here with ⟨-, key, request, rfl⟩ | ⟨old, found, rfl | rfl⟩
  · exact absurd replied (by simp)
  · exact h found replied
  · exact h found replied

/-- Nobody has an answer at the start. -/
theorem heard_start (policy : Policy) (connector : Ledger.Connector) :
    (start policy connector).Heard :=
  fun found ↦ absurd ((Table.get?_empty _).symm.trans found) (by simp)

/-- Whoever has an answer was given it, in every state that can come about. -/
theorem Reachable.heard (h : s.Reachable) : s.Heard :=
  Reachable.invariant (P := Heard) heard_start (fun h change ↦ change.heard h)
    (fun h use ↦ use.heard h) h

end Signatory.Service.State
