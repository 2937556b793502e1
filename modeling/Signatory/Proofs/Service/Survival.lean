import Signatory.Proofs.Service.Endings
import Signatory.Proofs.Service.Sessions

/-!
# What a service survives

A worker dies only if its connector crashes, or if it accepts a request at a moment from which the
end of its idle window is beyond what the clock can name. A caller crashes only if a mailbox is
asked for that is larger than any can be. Waits that would end too late are cut, so they do no harm.
-/

namespace Signatory.Service

namespace State

variable {s t : State} {τ : Task} {w v : WorkerId} {worker y z : Worker} {c : CallerId}
  {x : Caller}

/-- What a worker can come to do by a change. -/
inductive Proceeds (s t : State) (w : WorkerId) : Activity → Prop
  | same {y : Worker} (found : s.workers.get? w = some y) : Proceeds s t w y.activity
  | idle : Proceeds s t w .idle
  | connecting (e : Envelope) (c : Credentials) (alarm : Alarm) :
    Proceeds s t w (.connecting e c (s.connector c.endpoint).outcome alarm)
  | syncing (e : Envelope) (attempt : Nat) (alarm : Alarm) :
    Proceeds s t w (.syncing e attempt alarm)
  | left (reason : ExitReason) : Proceeds s t w (.left reason)
  | died (recorded : ⟨s.now, .died w⟩ ∈ t.journal) : Proceeds s t w .died

/-- What the workers do when one of them has come to do something. -/
theorem proceeds_set (found : s.workers.get? v = some y)
    (here : (s.workers.set v z).get? w = some worker) (proceeds : Proceeds s t v z.activity) :
    Proceeds s t w worker.activity := by
  rcases Table.of_set found here with ⟨rfl, rfl⟩ | ⟨-, here⟩
  · exact proceeds
  · exact .same here

/-- What a worker does that goes on as before. -/
theorem proceeds_same (found : s.workers.get? w = some y) (same : z.activity = y.activity) :
    Proceeds s t w z.activity :=
  same ▸ .same found

/-- What each worker does after a change. -/
theorem Change.proceeds (change : Change s τ t) (here : t.workers.get? w = some worker) :
    Proceeds s t w worker.activity := by
  cases change with
  | leave found => exact proceeds_set found here (.left _)
  | die found => exact proceeds_set found here (.died (by simp))
  | skip takes => exact proceeds_set takes.found here (proceeds_same takes.found rfl)
  | misroute takes => exact proceeds_set takes.found here (proceeds_same takes.found rfl)
  | connect accepts => exact proceeds_set accepts.found here (.connecting _ _ _)
  | lookup accepts => exact proceeds_set accepts.found here (.syncing _ _ _)
  | serve accepts => exact proceeds_set accepts.found here .idle
  | finish found => exact proceeds_set found here .idle
  | again found => exact proceeds_set found here (.syncing _ _ _)
  | spawn =>
    rcases Table.of_push here with ⟨-, rfl, -⟩ | here
    · exact .idle
    · exact .same here
  | push offers found => exact proceeds_set found here (proceeds_same found rfl)
  | suspend offers found => exact proceeds_set found here (proceeds_same found rfl)
  | occupy known suspended found => exact proceeds_set found here (proceeds_same found rfl)
  | withdraw =>
    obtain ⟨y, found, ⟨-, rfl⟩ | ⟨-, rfl⟩⟩ := Table.of_update here
    · exact .same (y := y) found
    · exact .same found
  | _ => exact .same here

/-- A worker dies in one of the circumstances. -/
theorem Change.died {time : Nat} (change : Change s τ t) (new : ⟨time, .died w⟩ ∈ t.journal) :
    ⟨time, .died w⟩ ∈ s.journal ∨
      time = s.now ∧ ∃ y hand mailbox, s.workers.get? w = some y ∧ Dies s w y hand mailbox := by
  cases change with
  | leave =>
    rcases List.mem_append.mp new with back | new
    · obtain ⟨e, -, -, same⟩ := mem_returns.mp back
      exact absurd (congrArg Entry.event same) (by simp)
    · exact .inl (by simpa using new)
  | @die v worker hand mailbox found cause =>
    simp only [List.mem_cons, Entry.mk.injEq, reduceCtorEq, and_false, false_or,
      Event.died.injEq] at new
    rcases new with ⟨rfl, rfl⟩ | old
    · exact .inr ⟨rfl, _, _, _, found, cause⟩
    · exact .inl old
  | _ => exact .inl (by simpa using new)

/-- What holds of a service whose connector never crashes: nobody is answered with a violation,
workers die only because the clock cannot name the end of their idle windows, callers crash only
because no mailbox can be as large as asked for, and calls end with a violation only because a
worker has died. -/
structure Sturdy (s : State) : Prop where
  answers : ∀ {c w fault}, .answered c w (.error (.violation fault)) ∉ s.events
  heard : s.Heard
  steady : ∀ {w y e c alarm}, s.workers.get? w = some y → y.activity ≠ .connecting e c .crash alarm
  deaths : ∀ {time w}, ⟨time, .died w⟩ ∈ s.journal →
    time ≤ s.now ∧ clockReach ≤ time + s.policy.idleTimeout
  dead : ∀ {w y}, s.workers.get? w = some y → y.activity = .died →
    ∃ time, ⟨time, .died w⟩ ∈ s.journal
  crashed : ∀ {c x}, s.callers.get? c = some x → x.phase = .ended .crashed →
    capacityLimit < s.policy.queueCapacity
  stopped : ∀ {c x fault}, s.callers.get? c = some x →
    x.phase = .ended (.result (.error (.violation fault))) →
    ∃ time w, ⟨time, .died w⟩ ∈ s.journal

/-- Every change leaves a service sturdy. -/
theorem Change.sturdy (h : s.Sturdy) (filed : s.Filed)
    (sound : ∀ endpoint, (s.connector endpoint).outcome ≠ .crash) (change : Change s τ t) :
    t.Sturdy := by
  have later := change.later
  have recorded {e : Entry} (old : e ∈ s.journal) : e ∈ t.journal := later.journal.subset old
  refine ⟨?_, ?_, ?_, ?_, ?_, ?_, ?_⟩
  · intro c w fault answered
    rcases change.answered answered with old | ⟨worker, e, identity, found, inside, -, answers⟩
    · exact h.answers old
    · generalize outcome : ((.error (.violation fault) : Result), identity) = done at answers
      cases answers with
      | misrouted foreign => exact foreign (filed.matched found inside)
      | served serves => exact serves.straight fault (congrArg Prod.fst outcome.symm)
      | finished finishes => exact finishes.straight fault (congrArg Prod.fst outcome.symm)
  · exact change.heard h.heard
  · intro w y e c alarm here crash
    have proceeds := change.proceeds here
    rw [crash] at proceeds
    generalize activity : Activity.connecting e c .crash alarm = a at proceeds
    cases proceeds with
    | same found => exact h.steady found activity.symm
    | connecting e c alarm =>
      obtain ⟨-, -, outcome, -⟩ := Activity.connecting.inj activity
      exact sound _ outcome.symm
    | _ => exact absurd activity (by simp)
  · intro time w died
    rw [change.now, later.policy]
    rcases change.died died with old | ⟨rfl, y, hand, mailbox, found, dies⟩
    · exact h.deaths old
    · refine ⟨Nat.le_refl _, ?_⟩
      cases dies with
      | crashed connecting => exact absurd connecting (h.steady found)
      | outOfReach takes waits far =>
        unfold canReach at far
        exact Nat.le_of_not_lt (of_decide_eq_false far)
  · intro w y here died
    have proceeds := change.proceeds here
    rw [died] at proceeds
    generalize activity : Activity.died = a at proceeds
    cases proceeds with
    | same found =>
      obtain ⟨time, old⟩ := h.dead found activity.symm
      exact ⟨time, recorded old⟩
    | died new => exact ⟨_, new⟩
    | _ => exact absurd activity (by simp)
  · intro c x here past
    rw [later.policy]
    obtain ⟨old, found, before | ends⟩ := change.ends here past
    · exact h.crashed found before
    · generalize outcome : Ending.crashed = ending at ends
      cases ends with
      | concludes cause =>
        subst outcome
        cases cause with
        | crashed seeking direct serving large => exact large
      | givesUp live cause => subst outcome; cases cause
      | _ => exact absurd outcome (by simp)
  · intro c x fault here past
    obtain ⟨old, found, before | ends⟩ := change.ends here past
    · obtain ⟨time, w, died⟩ := h.stopped found before
      exact ⟨time, w, recorded died⟩
    · generalize outcome : Ending.result (.error (.violation fault)) = ending at ends
      cases ends with
      | concludes cause =>
        subst outcome
        cases cause with
        | result replied => exact absurd (h.heard found replied) h.answers
      | lost replied =>
        obtain ⟨y, there, -, died⟩ := filed.stranded found replied
        obtain ⟨time, old⟩ := h.dead there died
        exact ⟨time, _, recorded old⟩
      | givesUp live cause => subst outcome; cases cause
      | _ => exact absurd outcome (by simp)

/-- Every use leaves a service sturdy. -/
theorem Use.sturdy (h : s.Sturdy) (use : Use s t) : t.Sturdy := by
  have later := use.later
  have journal : ∀ {time : Nat} {w : WorkerId}, ⟨time, .died w⟩ ∈ t.journal →
      ⟨time, .died w⟩ ∈ s.journal := by
    intro time w died
    cases use with
    | remove => exact (List.mem_cons.mp died).resolve_left (by simp)
    | shutdown => exact (List.mem_cons.mp died).resolve_left (by simp)
    | _ => exact died
  refine ⟨?_, ?_, ?_, ?_, ?_, ?_, ?_⟩
  · intro c w fault
    rw [← mem_history, (use.silent w).1, mem_history]
    exact h.answers
  · exact use.heard h.heard
  · intro w y e c alarm here
    obtain ⟨old, found, rfl | rfl⟩ := use.of_worker here
    · exact h.steady found
    · exact fun crash ↦ h.steady found crash
  · intro time w died
    rw [later.policy]
    exact (h.deaths (journal died)).imp_left fun before ↦ Nat.le_trans before use.now_le
  · intro w y here died
    obtain ⟨old, found, rfl | rfl⟩ := use.of_worker here
    · exact (h.dead found died).imp fun _ old ↦ later.journal.subset old
    · exact (h.dead found died).imp fun _ old ↦ later.journal.subset old
  · intro c x here past
    rw [later.policy]
    obtain ⟨old, found, before⟩ := use.ends here past
    exact h.crashed found before
  · intro c x fault here past
    obtain ⟨old, found, before⟩ := use.ends here past
    obtain ⟨time, w, died⟩ := h.stopped found before
    exact ⟨time, w, later.journal.subset died⟩

/-- A service that nobody has used is sturdy. -/
theorem sturdy_start (policy : Policy) (connector : Ledger.Connector) :
    (start policy connector).Sturdy where
  answers := List.not_mem_nil
  heard := heard_start policy connector
  steady := fun found ↦ by simp [start] at found
  deaths := fun died ↦ absurd died List.not_mem_nil
  dead := fun found ↦ by simp [start] at found
  crashed := fun found ↦ by simp [start] at found
  stopped := fun found ↦ by simp [start] at found

/-- A service whose connector never crashes is sturdy in every state that can come about. -/
theorem Reachable.sturdy (h : s.Reachable)
    (sound : ∀ endpoint, (s.connector endpoint).outcome ≠ .crash) : s.Sturdy := by
  have kept := Reachable.invariant
    (P := fun s ↦ s.Filed ∧ ((∀ endpoint, (s.connector endpoint).outcome ≠ .crash) → s.Sturdy))
    (fun policy connector ↦ ⟨filed_start policy connector, fun _ ↦ sturdy_start policy connector⟩)
    (fun {s τ t} h change ↦ ⟨change.filed h.1, fun sound ↦ ?_⟩)
    (fun {s t} h use ↦ ⟨use.filed h.1, fun sound ↦ ?_⟩) h
  · have sturdy := kept.2 sound
    exact ⟨sturdy.answers, sturdy.heard, sturdy.steady, sturdy.deaths, sturdy.dead,
      sturdy.crashed, sturdy.stopped⟩
  · have sound : ∀ endpoint, (s.connector endpoint).outcome ≠ .crash :=
      change.later.connector ▸ sound
    exact change.sturdy (h.2 sound) h.1 sound
  · have sound : ∀ endpoint, (s.connector endpoint).outcome ≠ .crash :=
      use.later.connector ▸ sound
    exact use.sturdy (h.2 sound)

/-- A wait ends within reach, however long it is, unless thirty years from now are out of reach. -/
theorem after_lt_clockReach (reach : s.now + longWait < clockReach) (wait : Nat) :
    s.after wait < clockReach := by
  unfold after
  split
  next within => exact of_decide_eq_true within
  next => exact reach

/-- While the clock can name the end of an idle window and mailboxes can be as large as asked for,
no worker has died and no call has ended with a crash or a violation. -/
theorem Sturdy.unharmed (h : s.Sturdy) (small : s.policy.queueCapacity ≤ capacityLimit)
    (reach : s.now + s.policy.idleTimeout < clockReach) :
    (∀ w y, s.workers.get? w = some y → y.activity ≠ .died) ∧
      ∀ c x ending, s.callers.get? c = some x → x.phase = .ended ending →
        ending ≠ .crashed ∧ ∀ fault, ending ≠ .result (.error (.violation fault)) := by
  have nobody {time : Nat} {w : WorkerId} (died : ⟨time, .died w⟩ ∈ s.journal) : False := by
    obtain ⟨before, far⟩ := h.deaths died
    omega
  refine ⟨fun w y found died ↦ ?_, fun c x ending found past ↦ ⟨?_, ?_⟩⟩
  · obtain ⟨time, died⟩ := h.dead found died
    exact nobody died
  · rintro rfl
    exact absurd (h.crashed found past) (Nat.not_lt.mpr small)
  · rintro fault rfl
    obtain ⟨time, w, died⟩ := h.stopped found past
    exact nobody died

end State

end Signatory.Service
