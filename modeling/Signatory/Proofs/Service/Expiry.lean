import Signatory.Proofs.Service.Succession
import Signatory.Proofs.Service.Withdrawal

/-!
# When a worker has idled too long

A worker leaves by itself only when it has nothing in its hand and has accepted no request for as
long as it may idle; and then it does leave before every task waits. Its key is vacant from then on,
until someone asks for a new identity.
-/

namespace Signatory.Service.State

variable {front : List CallerId} {s t u : State} {τ : Task} {w v : WorkerId} {y z : Worker}
  {c : CallerId} {x : Caller} {key : String}

/-- Who left because it had idled too long is recorded. -/
theorem mem_evictions : w ∈ s.evictions ↔ .hooked w .idleTimeout ∈ s.events := by
  refine ⟨fun inside ↦ ?_, fun recorded ↦ List.mem_filterMap.mpr ⟨_, recorded, rfl⟩⟩
  obtain ⟨event, recorded, eviction⟩ := List.mem_filterMap.mp inside
  unfold Event.eviction? at eviction
  split at eviction
  next => exact Option.some.inj eviction ▸ recorded
  next => exact absurd eviction (by simp)

/-- A worker leaves because it has idled too long. -/
structure Lapses (s t : State) (w : WorkerId) (y : Worker) : Prop where
  found : s.workers.get? w = some y
  looks : y.activity = .idle
  kept : y.cancelled = false
  empty : y.mailbox.queue = []
  late : y.idle.time ≤ s.now
  directory : t.directory = s.without y.key w
  callers : t.callers = s.callers

/-- A worker that leaves because it has idled too long does so itself. -/
theorem Change.lapses (change : Change s τ t) (new : .hooked w .idleTimeout ∈ t.events) :
    .hooked w .idleTimeout ∈ s.events ∨ τ = .worker w ∧ ∃ y, Lapses s t w y := by
  cases change with
  | leave found looks cause =>
    rcases mem_events_leave.mp new with ⟨_, _, _, back⟩ | closed | own | old
    · exact absurd back (by simp)
    · exact absurd closed (by simp)
    · obtain ⟨rfl, rfl⟩ := Event.hooked.inj own
      cases cause with
      | idled kept empty late =>
        -- It has nothing to hand back.
        refine .inr ⟨rfl, _, found, looks, kept, empty, late, rfl, ?_⟩
        change replyAll w .handedBack _ s.callers = s.callers
        rw [empty]
        rfl
    · exact .inl old
  | _ => exact .inl (by simpa [events] using new)

/-- No worker leaves because of what a caller does. -/
theorem Changes.lapses_of_caller (changes : Changes (.caller c) s t)
    (new : .hooked w .idleTimeout ∈ t.events) : .hooked w .idleTimeout ∈ s.events := by
  induction changes with
  | refl => exact new
  | tail _ change ih =>
    rcases change.lapses new with old | ⟨other, -⟩
    · exact ih old
    · exact absurd other (by simp)

/-- A worker that has left because it had idled too long has just done so, or had before. -/
theorem Next.lapses (h : s.Reachable) (next : Next s t) (new : w ∈ t.evictions) :
    w ∈ s.evictions ∨ ∃ y, Lapses s.bare t.bare w y := by
  rw [mem_evictions] at new ⊢
  rcases next.step_or_use with taken | use
  · rcases step_changes taken with ⟨τ, running, changes⟩ | same
    · cases τ with
      | worker v =>
        have change := h.change_of_worker running taken
        exact (change.lapses new).imp_right fun ⟨_, lapses⟩ ↦ lapses
      | caller c => exact .inl (changes.lapses_of_caller new)
    · have same := congrArg State.events same
      exact .inl (same.symm ▸ new)
  · left
    rcases use.events_eq with same | ⟨v, more⟩ | more
    · exact (same : t.events = s.events) ▸ new
    · exact (List.mem_cons.mp ((more : t.events = _) ▸ new)).resolve_left (by simp)
    · exact (List.mem_cons.mp ((more : t.events = _) ▸ new)).resolve_left (by simp)

/-- The key of a worker that leaves because it has idled too long is vacant. -/
theorem Lapses.vacant (h : s.Reachable) (lapses : Lapses s.bare t.bare w y) :
    t.find? y.key = none := by
  have named := h.named_of_serves lapses.found
    ⟨rfl, lapses.kept, by rw [lapses.looks]; rfl⟩
  have gone := lookUp_without s.bare y.key w y.key
  rw [if_pos ⟨rfl, named⟩, ← lapses.directory] at gone
  exact gone

/-- What comes after a state in which a key is vacant: whoever is named for the key then was created
since, in one step of a caller that asked for an identity for it, and began as new, with that
caller's envelope first in its mailbox; and if that caller was given an identity, then the worker
began with the number that it asked for. -/
structure Vacated (t : State) (key : String) : Prop where
  vacant : t.find? key = none
  created : ∀ u v, Run t u → Next u v → u.find? key = none → ∀ w, v.find? key = some w →
    ∃ z c k, v.workers.get? w = some z ∧ z.key = key ∧ Begins u v w z c k
  named : ∀ u, Run t u → ∀ w, u.find? key = some w → t.workers.size ≤ w ∧
    ∃ z c k, u.workers.get? w = some z ∧ z.key = key ∧ u.Founder w z c k ∧
      ∀ a, (c, .ok (.generated a)) ∈ u.history w →
        ∃ more, u.history w = (c, .ok (.generated a)) :: more ∧
          number? (u.identity? w) =
            more.foldl (numberAfter u.initial) (some k.sequenceNumber.toNat)

/-- A vacant key stays so until a worker is created for it. -/
theorem Reachable.vacated (h : t.Reachable) (vacant : t.find? key = none) : t.Vacated key where
  vacant := vacant
  created := by
    intro u v run next none w named
    have reachable := h.run run
    have new : u.workers.get? w = Option.none := by
      rcases Run.named (.single next) named with before | since
      · exact absurd (none.symm.trans before) (by simp)
      · exact Table.get?_of_le since
    obtain ⟨z, there, own⟩ := (reachable.run (.single next)).ordered.filed.named named
    obtain ⟨c, k, begins⟩ := next.begins reachable new there
    exact ⟨z, c, k, there, own, begins⟩
  named := by
    intro u run w named
    have reachable := h.run run
    have since : t.workers.size ≤ w :=
      (run.named named).resolve_left fun before ↦ absurd (vacant.symm.trans before) (by simp)
    obtain ⟨z, there, own⟩ := reachable.ordered.filed.named named
    obtain ⟨c, k, founder⟩ := reachable.founder there
    exact ⟨since, z, c, k, there, own, founder, fun a ↦ founder.begins_with reachable⟩

/-- A worker idles no longer than it may. While every task waits, a worker that has nothing in its
hand accepted a request, or was created, less than that long ago. It leaves because it has idled too
long only if it has nothing in its hand and has accepted no request for that long. Only requests
that are accepted count, and callers that have left before are not among them. Once such a worker
has left its key is vacant until someone asks for a new identity; then a new worker is created,
which begins with the number that is asked for. -/
theorem Reachable.idle_window (h : s.Reachable)
    (reach : s.now + s.policy.idleTimeout < clockReach) :
    (∀ policy connector front, Session policy connector front s → s.step = none →
      ∀ w y, s.workers.get? w = some y → y.activity = .idle →
        ∃ active, s.lastActive? w = some active ∧ s.now < active + s.policy.idleTimeout) ∧
    ∀ t, Next s t →
      (∀ w y z, s.workers.get? w = some y → t.workers.get? w = some z → Prolongs s t w y z) ∧
      ∀ w, w ∉ s.evictions → w ∈ t.evictions →
        ∃ y active, s.workers.get? w = some y ∧ y.activity = .idle ∧
          s.lastActive? w = some active ∧ active + s.policy.idleTimeout ≤ s.now ∧
          t.Vacated y.key := by
  have deadline {w : WorkerId} {y : Worker} (found : s.workers.get? w = some y) :
      ∃ active, s.lastActive? w = some active ∧ y.idle.time = active + s.policy.idleTimeout := by
    obtain ⟨active, last, past, due⟩ := h.timed w y found
    exact ⟨active, last, due (Nat.lt_of_le_of_lt (Nat.add_le_add_right past _) reach)⟩
  refine ⟨fun policy connector front session still w y found looks ↦ ?_, fun t next ↦ ⟨?_, ?_⟩⟩
  · obtain ⟨active, last, due⟩ := deadline found
    have early := (session.watched.slack (idle_of_step still) found looks).early
    exact ⟨active, last, due ▸ early⟩
  · exact fun w y z found there ↦ next.prolongs h found there
  · intro w before new
    obtain ⟨y, lapses⟩ := (next.lapses h new).resolve_left before
    obtain ⟨active, last, due⟩ := deadline lapses.found
    refine ⟨y, active, lapses.found, lapses.looks, last, due ▸ lapses.late, ?_⟩
    exact (h.run (.single next)).vacated (lapses.vacant h)

/-- A worker that may idle for some time does so after its only request, and then leaves. -/
theorem Reachable.idle_window_passed :
    ∃ r s t, Session { idleTimeout := 50 } trialConnector [] r ∧ r.step = none ∧
      (∃ active, r.lastActive? 0 = some active ∧ r.now < active + r.policy.idleTimeout) ∧
      s.Reachable ∧ Next s t ∧ 0 ∉ s.evictions ∧ 0 ∈ t.evictions ∧
      ∃ y, s.workers.get? 0 = some y ∧ t.Vacated y.key := by
  have called := ((Session.start : Session { idleTimeout := 50 } trialConnector [] _).act rfl
    (.single (.spawn "treasury" (trialGenerate "main")))).runReady 40
  have late := (called.jump_listed rfl (show _ = some 50 from rfl) rfl (by decide)).runReady 1
  have lapses {s t : State} (_ : s.Reachable) (taken : s.step = some t) : Next s t := .step taken
  have next := lapses late.reachable rfl
  have active := (Reachable.idle_window called.reachable (by decide)).1 _ _ _ called rfl 0 _ rfl rfl
  obtain ⟨y, _, found, -, -, -, vacated⟩ :=
    ((Reachable.idle_window late.reachable (by decide)).2 _ next).2 0 (by decide) (by decide)
  exact ⟨_, _, _, called, rfl, active, late.reachable, next, by decide, by decide, y, found, vacated⟩

end Signatory.Service.State
