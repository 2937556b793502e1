import Signatory.Proofs.Service.Directory
import Signatory.Proofs.Service.Turns

/-!
# The idle deadline

A worker leaves if it has accepted no request for as long as it may idle. Its deadline is set when
it is created and anew whenever it accepts a request, and at no other time: what it skips does not
count.
-/

namespace Signatory.Service

/-- Whether an event sets the idle deadline of a worker: it is created, or it accepts a request. -/
def Event.rearms (w : WorkerId) : Event → Bool
  | .spawned v _ | .accepted _ v => v = w
  | _ => false

/-- When the idle deadline of a worker was last set, of some entries, the latest first. -/
def lastRearmed (w : WorkerId) (journal : List Entry) : Option Nat :=
  (journal.find? (·.event.rearms w)).map (·.time)

section Journal

variable {w : WorkerId} {entry : Entry} {later journal : List Entry}

/-- An entry that sets the deadline of a worker is the last that does. -/
theorem lastRearmed_cons_of_rearms (rearms : entry.event.rearms w = true) :
    lastRearmed w (entry :: journal) = some entry.time := by
  rw [lastRearmed, List.find?_cons_of_pos (by exact rearms)]
  rfl

/-- Other entries leave the deadline of a worker as it was. -/
theorem lastRearmed_cons (silent : entry.event.rearms w = false) :
    lastRearmed w (entry :: journal) = lastRearmed w journal := by
  rw [lastRearmed, List.find?_cons_of_neg (by simp [silent])]
  rfl

/-- Several entries that do not concern the deadline of a worker leave it as it was. -/
theorem lastRearmed_append (silent : ∀ entry ∈ later, entry.event.rearms w = false) :
    lastRearmed w (later ++ journal) = lastRearmed w journal := by
  induction later with
  | nil => rfl
  | cons entry later ih =>
    rw [List.cons_append, lastRearmed_cons (silent entry List.mem_cons_self)]
    exact ih fun entry inside ↦ silent entry (List.mem_cons_of_mem _ inside)

end Journal

namespace State

variable {s t : State} {τ : Task} {w v : WorkerId} {y z : Worker} {c : CallerId}

/-- When a worker last accepted a request, or was created if it has accepted none. -/
def lastActive? (s : State) (w : WorkerId) : Option Nat :=
  lastRearmed w s.journal

/-- What has become of the idle deadline of a worker: it is as it was, or it has been set anew
because a request is accepted, or because the worker is created. -/
inductive Rearms (s t : State) (w : WorkerId) (z : Worker) : Prop
  | kept {y : Worker} (found : s.workers.get? w = some y) (idle : z.idle = y.idle)
    (active : t.lastActive? w = s.lastActive? w)
  | accepted {y : Worker} {c : CallerId} (found : s.workers.get? w = some y)
    (due : z.idle.time = s.now + s.policy.idleTimeout) (active : t.lastActive? w = some s.now)
    (acceptances : t.acceptances w = s.acceptances w ++ [c])
  | created (missing : s.workers.get? w = none)
    (due : z.idle.time = s.after s.policy.idleTimeout) (active : t.lastActive? w = some s.now)

/-- A worker that is changed without its deadline keeps it, and so do the others. -/
theorem rearms_set {worker : Worker} (found : s.workers.get? v = some y)
    (here : (s.workers.set v z).get? w = some worker) (idle : z.idle = y.idle)
    (active : t.lastActive? w = s.lastActive? w) : Rearms s t w worker := by
  rcases Table.of_set found here with ⟨rfl, rfl⟩ | ⟨-, here⟩
  · exact .kept found idle active
  · exact .kept here rfl active

/-- A change sets the idle deadline of a worker that it creates or that accepts a request, and of no
other. -/
theorem Change.rearms (filed : s.Filed) (change : Change s τ t)
    (here : t.workers.get? w = some z) : Rearms s t w z := by
  have accepts {v : WorkerId} {worker next : Worker} {e : Envelope} {rest : Mailbox}
      {deadline : Alarm} (accepts : Accepts s v worker e rest deadline)
      (here : (s.workers.set v next).get? w = some z) (idle : next.idle = deadline)
      (own : v = w → t.lastActive? w = some s.now ∧
        t.acceptances w = s.acceptances w ++ [e.caller])
      (other : v ≠ w → t.lastActive? w = s.lastActive? w) : Rearms s t w z := by
    rcases Table.of_set accepts.found here with ⟨rfl, rfl⟩ | ⟨apart, here⟩
    · obtain ⟨active, acceptances⟩ := own rfl
      exact .accepted accepts.found (idle ▸ accepts.rearmed) active acceptances
    · exact .kept here rfl (other apart)
  -- Whether or not the request is answered at once, it is accepted.
  have recorded {c : CallerId} {v : WorkerId} {journal : List Entry} (same : v = w) :
      lastRearmed w (⟨s.now, .accepted c v⟩ :: journal) = some s.now :=
    lastRearmed_cons_of_rearms (show (Event.accepted c v).rearms w = true from decide_eq_true same)
  have apart {c : CallerId} {v : WorkerId} {journal : List Entry} (other : v ≠ w) :
      lastRearmed w (⟨s.now, .accepted c v⟩ :: journal) = lastRearmed w journal :=
    lastRearmed_cons (show (Event.accepted c v).rearms w = false from decide_eq_false other)
  have entered {c : CallerId} {v : WorkerId} {earlier : List Event} (same : v = w) :
      ((Event.accepted c v :: earlier).filterMap (Event.acceptance? w)).reverse =
        (earlier.filterMap (Event.acceptance? w)).reverse ++ [c] := by
    rw [acceptances_accepted, if_pos same]
  cases change with
  | leave found =>
    refine rearms_set found here rfl ?_
    refine (lastRearmed_append fun entry back ↦ ?_).trans rfl
    obtain ⟨c, event⟩ := returned _ _ _ _ _ (List.mem_map_of_mem back)
    rw [event]
    rfl
  | die found => exact rearms_set found here rfl rfl
  | skip takes => exact rearms_set takes.found here rfl rfl
  | misroute takes waits foreign =>
    exact absurd (filed.matched takes.found (takes.envelopes ▸ List.mem_cons_self)) foreign
  | connect taken => exact accepts taken here rfl (fun same ↦ ⟨recorded same, entered same⟩) apart
  | lookup taken => exact accepts taken here rfl (fun same ↦ ⟨recorded same, entered same⟩) apart
  | serve taken => exact accepts taken here rfl (fun same ↦ ⟨recorded same, entered same⟩) apart
  | finish found => exact rearms_set found here rfl rfl
  | again found => exact rearms_set found here rfl rfl
  | @spawn c x idle found seeking direct tries serving creates vacant due =>
    rcases Table.of_push here with ⟨new, rfl, missing⟩ | here
    · exact .created missing due (lastRearmed_cons_of_rearms (decide_eq_true new.symm))
    · have old : s.workers.size ≠ w := Nat.ne_of_gt (Table.lt_size here)
      exact .kept here rfl (lastRearmed_cons (decide_eq_false old))
  | push offers found => exact rearms_set found here rfl rfl
  | suspend offers found => exact rearms_set found here rfl rfl
  | occupy known suspended found => exact rearms_set found here rfl rfl
  | withdraw =>
    obtain ⟨y, found, ⟨-, rfl⟩ | ⟨-, rfl⟩⟩ := Table.of_update here
    · exact .kept found rfl rfl
    · exact .kept found rfl rfl
  | _ => exact .kept here rfl rfl

/-- The idle deadline of a worker is as long after it was last active as it may idle, if the clock
can name that moment. -/
def Timed (s : State) : Prop :=
  ∀ w y, s.workers.get? w = some y → ∃ active, s.lastActive? w = some active ∧ active ≤ s.now ∧
    (active + s.policy.idleTimeout < clockReach → y.idle.time = active + s.policy.idleTimeout)

/-- The moment at which a wait is over that the clock can name. -/
theorem after_of_reach {wait : Nat} (reach : s.now + wait < clockReach) :
    s.after wait = s.now + wait := by
  unfold after canReach
  rw [decide_eq_true reach, if_pos rfl]

/-- Every change keeps the idle deadlines. -/
theorem Change.timed (h : s.Timed) (filed : s.Filed) (change : Change s τ t) : t.Timed := by
  intro w z here
  have now := change.now
  have policy := change.later.policy
  rw [now, policy]
  cases change.rearms filed here with
  | kept found idle active =>
    rw [active, idle]
    exact h w _ found
  | accepted found due active => exact ⟨s.now, active, Nat.le_refl _, fun _ ↦ due⟩
  | created missing due active =>
    exact ⟨s.now, active, Nat.le_refl _, fun reach ↦ due.trans (after_of_reach reach)⟩

/-- No use sets an idle deadline. -/
theorem Use.rearmed (use : Use s t) (here : t.workers.get? w = some z) :
    t.lastActive? w = s.lastActive? w ∧ ∃ y, s.workers.get? w = some y ∧ z.idle = y.idle := by
  constructor
  · cases use with
    | remove | shutdown => exact lastRearmed_cons rfl
    | _ => rfl
  · obtain ⟨y, found, rfl | rfl⟩ := use.of_worker here
    · exact ⟨_, found, rfl⟩
    · exact ⟨y, found, rfl⟩

/-- Every use keeps the idle deadlines. -/
theorem Use.timed (h : s.Timed) (use : Use s t) : t.Timed := by
  intro w z here
  obtain ⟨active, y, found, idle⟩ := use.rearmed here
  obtain ⟨moment, last, past, due⟩ := h w y found
  have now : s.now ≤ t.now := by
    cases use with
    | wait later => exact later
    | _ => exact Nat.le_refl _
  rw [active, idle, use.later.policy]
  exact ⟨moment, last, Nat.le_trans past now, due⟩

/-- The idle deadlines are kept in every state that can come about. -/
theorem Reachable.timed (h : s.Reachable) : s.Timed := by
  have kept := Reachable.invariant (P := fun s ↦ s.Ordered ∧ s.Timed)
    (fun policy connector ↦ ⟨ordered_start policy connector,
      fun w y found ↦ absurd ((Table.get?_empty w).symm.trans found) (by simp)⟩)
    (fun h change ↦ ⟨change.ordered h.1, change.timed h.2 h.1.filed⟩)
    (fun h use ↦ ⟨use.ordered h.1, use.timed h.2⟩) h
  exact kept.2

end State

end Signatory.Service
