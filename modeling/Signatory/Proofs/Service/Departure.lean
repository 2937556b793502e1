import Signatory.Proofs.Service.Standalone

/-!
# How a worker leaves

A worker that looks for something to do leaves when it is told to, when nobody can send to it any
more, when it has idled too long, or when the envelope that it takes is meant for another. It says
so, closes its mailbox, and hands back what is still in it, the oldest first; the identity is not
touched, and an envelope that is meant for another is refused without looking at it.
-/

namespace Signatory.Service

/-- Envelopes are handed back in order, those whose callers wait, if each caller has but one. -/
theorem returns_eq {time : Nat} {w : WorkerId} {es : List Envelope} {callers : Table Caller}
    (once : ∀ c, (callers.get? c).any (Caller.awaits w) = true → (es.map (·.caller)).count c ≤ 1) :
    returns time w es callers =
      ((es.filter fun e ↦ (callers.get? e.caller).any (Caller.awaits w)).map
        fun e ↦ ⟨time, .handedBack e.caller w⟩).reverse := by
  induction es generalizing callers with
  | nil => rfl
  | cons e es ih =>
    have rest : (es.filter fun f ↦
          ((callers.update e.caller (Caller.reply w .handedBack)).get? f.caller).any
            (Caller.awaits w)) =
        es.filter fun f ↦ (callers.get? f.caller).any (Caller.awaits w) := by
      refine List.filter_congr fun f inside ↦ ?_
      rw [Table.get?_update]
      split
      next same =>
        have silent : (callers.get? f.caller).any (Caller.awaits w) = false := by
          refine Bool.eq_false_iff.mpr fun waits ↦ ?_
          have twice := once f.caller waits
          rw [List.map_cons, same, List.count_cons_self] at twice
          have again : 0 < (es.map (·.caller)).count f.caller :=
            List.count_pos_iff.mpr (List.mem_map_of_mem inside)
          omega
        rw [silent, Bool.eq_false_iff]
        exact fun waits ↦ absurd (silent.symm.trans (Caller.any_awaits_of_reply waits)) (by simp)
      next => rfl
    rw [returns, ih, rest, List.filter_cons]
    · split
      next => rw [List.map_cons, List.reverse_cons]
      next => rw [List.append_nil]
    · intro c waits
      refine Nat.le_trans (List.count_le_count_cons ..) (once c ?_)
      rw [Table.get?_update] at waits
      split at waits
      next => exact Caller.any_awaits_of_reply waits
      next => exact waits

namespace State

/-- The envelopes whose callers still wait for a worker. -/
def pending (s : State) (w : WorkerId) (es : List Envelope) : List Envelope :=
  es.filter fun e ↦ s.awaits e.caller w

/-- What is recorded when envelopes are handed back, the latest first. -/
def handbacks (s : State) (w : WorkerId) (es : List Envelope) : List Event :=
  ((s.pending w es).map fun e ↦ .handedBack e.caller w).reverse

/-- How a worker comes to leave, what it says before, and which envelopes are left in its
mailbox. -/
inductive Parts (s : State) (w : WorkerId) (y : Worker) :
    ExitReason → List Event → List Envelope → Prop
  | called {reason : ExitReason} (cause : Leaves s w y reason) (own : reason ≠ .aborted) :
    Parts s w y reason [] y.mailbox.queue
  | misrouted {e : Envelope} {rest : List Envelope} (kept : y.cancelled = false)
    (queue : y.mailbox.queue = e :: rest) (waits : s.awaits e.caller w = true)
    (foreign : e.key ≠ y.key) :
    Parts s w y .aborted
      [.answered e.caller w (.error (.violation (.misrouted e.key y.key)))] rest

/-- A worker leaves: it says what it says before, runs its exit hook, closes its mailbox and hands
back what is left in it, the oldest envelope first. -/
structure Departs (s t : State) (w : WorkerId) (y : Worker) (reason : ExitReason)
    (told : List Event) (rest : List Envelope) : Prop where
  found : s.workers.get? w = some y
  idle : y.activity = .idle
  parts : Parts s w y reason told rest
  events : t.events = s.handbacks w rest ++ .closed w :: .hooked w reason :: (told ++ s.events)
  /-- Its mailbox is closed and empty, and its identity is the same. -/
  left : ∃ idle, t.workers.get? w =
    some { y with mailbox := y.mailbox.close, idle, activity := .left reason }
  /-- Each envelope that is handed back carries the request of its caller. -/
  returned : ∀ e ∈ s.pending w rest, ∃ x, s.callers.get? e.caller = some x ∧
    x.key = e.key ∧ x.request = e.request ∧
    t.callers.get? e.caller = some { x with phase := .replied w .handedBack }
  /-- None is handed back twice. -/
  once : ((s.pending w rest).map (·.caller)).Nodup
  /-- Who is told something hears it. -/
  heard : ∀ c r, .answered c w r ∈ told → ∃ x, s.callers.get? c = some x ∧
    t.callers.get? c = some { x with phase := .replied w (.answered r) }
  /-- Whoever does not wait for a reply stays as they are. -/
  others : ∀ c x, s.callers.get? c = some x → x.phase ≠ .awaiting w → t.callers.get? c = some x

variable {s t u v : State} {w : WorkerId} {y z : Worker} {c : CallerId} {x : Caller} {e : Envelope}
  {reason : ExitReason} {rest : List Envelope} {told : List Event}

/-- What does not depend on the schedule is seen of a state without it. -/
theorem seen_of_bare {α : Type} (see : State → α) (blind : ∀ s : State, see s.bare = see s)
    (same : t.bare = u) : see t = see u := by
  rw [← same, blind]

section Leaving

/-- What a worker that leaves says. -/
theorem events_leave (s : State) (w : WorkerId) (reason : ExitReason)
    (queue : y.mailbox.queue = rest)
    (once : ∀ c, s.awaits c w = true → (rest.map (·.caller)).count c ≤ 1) :
    (s.leave w y reason).events =
      s.handbacks w rest ++ .closed w :: .hooked w reason :: s.events := by
  have journal := seen_of_bare State.journal (fun _ ↦ rfl) (bare_leave s w y reason)
  rw [queue, returns_eq fun c waits ↦ once c ((awaits_eq s w c).trans waits)] at journal
  rw [events, journal, List.map_append, List.map_reverse, List.map_map, handbacks, pending]
  simp only [awaits_eq]
  rfl

/-- Who has an envelope in a mailbox that is closed gets it back, if they wait for it. -/
theorem returned_leave (s : State) (w : WorkerId) (reason : ExitReason)
    (queue : y.mailbox.queue = rest) (inside : e ∈ s.pending w rest) :
    ∃ x, s.callers.get? e.caller = some x ∧
      (s.leave w y reason).callers.get? e.caller =
        some { x with phase := .replied w .handedBack } := by
  obtain ⟨queued, waits⟩ := List.mem_filter.mp inside
  obtain ⟨x, known, awaiting⟩ := awaits_iff.mp waits
  have callers := seen_of_bare State.callers (fun _ ↦ rfl) (bare_leave s w y reason)
  have known' : s.bare.callers.get? e.caller = some x := known
  refine ⟨x, known, ?_⟩
  rw [callers, queue, get?_replyAll, if_pos (List.mem_map_of_mem queued), known', Option.map_some,
    Caller.reply, if_pos (Caller.awaits_iff.mpr awaiting)]

/-- Whoever does not wait for the reply of a worker stays as they are when it leaves. -/
theorem others_leave (s : State) (w : WorkerId) (y : Worker) (reason : ExitReason)
    (known : s.callers.get? c = some x) (apart : x.phase ≠ .awaiting w) :
    (s.leave w y reason).callers.get? c = some x := by
  have callers := seen_of_bare State.callers (fun _ ↦ rfl) (bare_leave s w y reason)
  have known : s.bare.callers.get? c = some x := known
  rw [callers, get?_replyAll]
  split
  next =>
    rw [known, Option.map_some, Caller.reply, if_neg (mt Caller.awaits_iff.mp apart)]
  next => exact known

/-- A worker that leaves closes its mailbox and changes nothing else about itself. -/
theorem left_leave (found : s.workers.get? w = some z) (y : Worker) (reason : ExitReason) :
    (s.leave w y reason).workers.get? w =
      some { z with mailbox := y.mailbox.close, activity := .left reason } := by
  have workers := seen_of_bare State.workers (fun _ ↦ rfl) (bare_leave s w y reason)
  have found : s.bare.workers.get? w = some z := found
  rw [workers]
  exact Table.get?_update_self found

/-- A caller who waits for a worker has one envelope in its mailbox at most. -/
theorem queue_once (owned : Owned s.workers s.callers) (found : s.workers.get? w = some y)
    (waits : s.awaits c w = true) : (y.mailbox.queue.map (·.caller)).count c ≤ 1 := by
  obtain ⟨x, known, awaiting⟩ := awaits_iff.mp waits
  have most := (owned.fits (c := c) found).most
  rw [phase?_of_found known, awaiting, remains_of_live rfl, claim, if_pos rfl] at most
  exact Nat.le_trans (((List.sublist_append_right ..).map _).count_le c) most

/-- Nobody who waits has two envelopes among those that are handed back, if none has two in all. -/
theorem pending_once (once : ∀ c, s.awaits c w = true → (rest.map (·.caller)).count c ≤ 1) :
    ((s.pending w rest).map (·.caller)).Nodup := by
  refine List.nodup_iff_count_le_one.mpr fun c ↦ ?_
  by_cases inside : c ∈ (s.pending w rest).map (·.caller)
  · obtain ⟨e, live, rfl⟩ := List.mem_map.mp inside
    exact Nat.le_trans ((List.filter_sublist.map _).count_le _) (once _ (List.mem_filter.mp live).2)
  · rw [List.count_eq_zero_of_not_mem inside]
    exact Nat.zero_le 1

/-- A worker leaves because it finds nothing to do or is told to. -/
theorem departs_called (owned : Owned s.workers s.callers) (found : s.workers.get? w = some y)
    (idle : y.activity = .idle) (cause : Leaves s w y reason) (own : reason ≠ .aborted) :
    Departs s (s.leave w y reason) w y reason [] y.mailbox.queue where
  found := found
  idle := idle
  parts := .called cause own
  events := events_leave s w reason rfl fun _ waits ↦ queue_once owned found waits
  left := ⟨y.idle, left_leave found y reason⟩
  returned := by
    intro e inside
    obtain ⟨x, known, back⟩ := returned_leave s w reason rfl inside
    obtain ⟨x', known', key, request⟩ := owned.carried found
      (List.mem_append_right _ (List.mem_of_mem_filter inside))
    obtain rfl := Option.some.inj (known.symm.trans known')
    exact ⟨x, known, key, request, back⟩
  once := pending_once fun _ waits ↦ queue_once owned found waits
  heard := fun _ _ inside ↦ absurd inside List.not_mem_nil
  others := fun c x known apart ↦ others_leave s w y reason known apart

end Leaving

section Taking

variable {m : Mailbox}

/-- A worker has taken an envelope out of its mailbox, and the place is granted to the next. -/
def taken (s : State) (w : WorkerId) (m : Mailbox) : State :=
  (s.updateWorker w fun y ↦ { y with mailbox := m }).grantPlace w

theorem bare_taken (found : s.workers.get? w = some y) :
    (s.taken w m).bare =
      { s.bare with workers := s.bare.workers.set w { y with mailbox := m.grant.2 } } := by
  have found : s.bare.workers.get? w = some y := found
  rw [taken, bare_grantPlace, bare_updateWorker, Table.update_eq_set found, Table.update_set]

theorem found_taken (found : s.workers.get? w = some y) :
    (s.taken w m).workers.get? w = some { y with mailbox := m.grant.2 } := by
  rw [seen_of_bare State.workers (fun _ ↦ rfl) (bare_taken found)]
  exact Table.get?_set_self found

/-- Whoever waits for a worker still does when it has taken an envelope out of its mailbox. -/
theorem awaits_taken (found : s.workers.get? w = some y) (c : CallerId) :
    (s.taken w m).awaits c w = s.awaits c w := by
  rw [awaits_eq, awaits_eq, bare_taken found]

theorem policy_taken (found : s.workers.get? w = some y) : (s.taken w m).policy = s.policy :=
  (seen_of_bare State.policy (fun _ ↦ rfl) (bare_taken found) :)

theorem canReach_taken (found : s.workers.get? w = some y) (wait : Nat) :
    (s.taken w m).canReach wait = s.canReach wait := by
  have now : (s.taken w m).now = s.now :=
    (seen_of_bare State.now (fun _ ↦ rfl) (bare_taken found) :)
  rw [canReach, canReach, now]

/-- What a worker does that looks for something to do and finds an envelope in its mailbox. -/
theorem look_of_pop (found : s.workers.get? w = some y) (kept : y.cancelled = false)
    (popped : y.mailbox.pop? = some (e, m)) :
    s.look w y = (s.taken w m).take w { y with mailbox := m.grant.2 } e := by
  unfold look
  rw [if_neg (by simp [kept]), popped]
  dsimp only
  rw [← taken, found_taken found]

/-- What a worker does that has nothing in its hand and finds an envelope in its mailbox. -/
theorem stepWorker_of_pop (found : s.workers.get? w = some y) (idle : y.activity = .idle)
    (kept : y.cancelled = false) (popped : y.mailbox.pop? = some (e, m)) :
    s.stepWorker w = (s.taken w m).take w { y with mailbox := m.grant.2 } e := by
  have looks : s.stepWorker w = s.look w y := by
    unfold stepWorker
    rw [found]
    dsimp only
    rw [idle]
  rw [looks, look_of_pop found kept popped]

/-- A worker that takes an envelope dies if the clock cannot name its next idle deadline. -/
theorem take_far (found : s.workers.get? w = some y) (waits : s.awaits e.caller w = true)
    (far : s.canReach s.policy.idleTimeout = false) :
    (s.taken w m).take w { y with mailbox := m.grant.2 } e =
      (s.taken w m).die w { y with mailbox := m.grant.2 } e := by
  rw [take, awaits_taken found, waits, policy_taken found, canReach_taken found, far,
    if_neg (by simp), if_pos (by simp)]

/-- What a worker says that dies. -/
theorem events_die (s : State) (w : WorkerId) (y : Worker) (e : Envelope) :
    (s.die w y e).events = .closed w :: .died w :: s.events :=
  seen_of_bare State.events (fun _ ↦ rfl) (bare_die s w y e)

theorem events_taken (found : s.workers.get? w = some y) : (s.taken w m).events = s.events :=
  (seen_of_bare State.events (fun _ ↦ rfl) (bare_taken found) :)

end Taking

section Refusing

variable {m : Mailbox}

/-- What a worker says about an envelope that is meant for another. -/
def refusal (y : Worker) (e : Envelope) : Result :=
  .error (.violation (.misrouted e.key y.key))

/-- What a worker has done that has taken an envelope meant for another out of its mailbox and
answered it. -/
def refused (s : State) (w : WorkerId) (y : Worker) (e : Envelope) (m : Mailbox) : State :=
  let (idle, u) := (s.taken w m).alarmAfter s.policy.idleTimeout
  (u.updateWorker w fun y ↦ { y with idle }).respond w e (refusal y e)

/-- What a worker does when it takes an envelope that is meant for another. -/
theorem take_misrouted (found : s.workers.get? w = some y) (waits : s.awaits e.caller w = true)
    (near : s.canReach s.policy.idleTimeout = true) (foreign : e.key ≠ y.key) :
    (s.taken w m).take w { y with mailbox := m.grant.2 } e =
      (s.refused w y e m).leave w { y with mailbox := m.grant.2 } .aborted := by
  rw [take, awaits_taken found, waits, policy_taken found, canReach_taken found, near,
    if_neg (by simp), if_neg (by simp)]
  dsimp only
  rw [accept, if_neg foreign]
  rfl

/-- What a worker does that finds an envelope in its mailbox which is meant for another. -/
theorem stepWorker_misrouted (found : s.workers.get? w = some y) (idle : y.activity = .idle)
    (kept : y.cancelled = false) (popped : y.mailbox.pop? = some (e, m))
    (waits : s.awaits e.caller w = true) (near : s.canReach s.policy.idleTimeout = true)
    (foreign : e.key ≠ y.key) :
    s.stepWorker w = (s.refused w y e m).leave w { y with mailbox := m.grant.2 } .aborted := by
  rw [stepWorker_of_pop found idle kept popped, take_misrouted found waits near foreign]

section Effects

variable (found : s.workers.get? w = some y) (e : Envelope)

include found

/-- An envelope that is meant for another is answered, and nothing else changes but the mailbox and
the idle deadline. -/
theorem bare_refused :
    (s.refused w y e m).bare =
      { s.bare with
        workers := s.bare.workers.set w
          { y with
            mailbox := m.grant.2
            idle := ((s.taken w m).alarmAfter s.policy.idleTimeout).1 }
        callers := s.bare.callers.update e.caller (Caller.reply w (.answered (refusal y e)))
        journal := ⟨s.bare.now, .answered e.caller w (refusal y e)⟩ :: s.bare.journal } := by
  rw [refused]
  dsimp only
  rw [bare_respond, bare_updateWorker, bare_alarmAfter, bare_taken found, Table.update_set]

theorem events_refused :
    (s.refused w y e m).events = .answered e.caller w (refusal y e) :: s.events :=
  seen_of_bare State.events (fun _ ↦ rfl) (bare_refused found e)

theorem found_refused : ∃ idle, (s.refused w y e m).workers.get? w =
    some { y with mailbox := m.grant.2, idle } := by
  rw [seen_of_bare State.workers (fun _ ↦ rfl) (bare_refused found e)]
  exact ⟨_, Table.get?_set_self found⟩

theorem known_refused (c : CallerId) : (s.refused w y e m).callers.get? c =
    if e.caller = c then (s.callers.get? c).map (Caller.reply w (.answered (refusal y e)))
    else s.callers.get? c := by
  rw [seen_of_bare State.callers (fun _ ↦ rfl) (bare_refused found e), Table.get?_update]
  rfl

/-- Whoever waits once an envelope is refused did so before. -/
theorem awaits_of_refused {c : CallerId} (waits : (s.refused w y e m).awaits c w = true) :
    s.awaits c w = true := by
  have awaits (t : State) : t.awaits c w = (t.callers.get? c).any (Caller.awaits w) :=
    awaits_eq t w c
  rw [awaits, known_refused found] at waits
  rw [awaits]
  split at waits
  next => exact Caller.any_awaits_of_reply waits
  next => exact waits

end Effects

/-- A worker leaves because it has taken an envelope that is meant for another. -/
theorem departs_misrouted (owned : Owned s.workers s.callers)
    (found : s.workers.get? w = some y) (idle : y.activity = .idle) (kept : y.cancelled = false)
    (popped : y.mailbox.pop? = some (e, m)) (waits : s.awaits e.caller w = true)
    (foreign : e.key ≠ y.key) :
    Departs s ((s.refused w y e m).leave w { y with mailbox := m.grant.2 } .aborted) w y .aborted
      [.answered e.caller w (refusal y e)] m.queue := by
  have queue := Mailbox.queue_of_pop? popped
  have granted : m.grant.2.queue = m.queue := Mailbox.grant_queue m
  have closed : m.grant.2.close = y.mailbox.close := by
    rw [Mailbox.close, Mailbox.close, Mailbox.grant_capacity, Mailbox.capacity_of_pop? popped]
  have once (c : CallerId) (waits : s.awaits c w = true) :
      ((e :: m.queue).map (·.caller)).count c ≤ 1 := queue ▸ queue_once owned found waits
  have fewer (c : CallerId) (waits : s.awaits c w = true) :
      (m.queue.map (·.caller)).count c ≤ 1 :=
    Nat.le_trans (List.count_le_count_cons ..) (once c waits)
  -- Its caller has no other envelope there.
  have apart {f : Envelope} (inside : f ∈ m.queue) : e.caller ≠ f.caller := by
    intro same
    have once := once e.caller waits
    have again : 0 < (m.queue.map (·.caller)).count e.caller :=
      List.count_pos_iff.mpr (same ▸ List.mem_map_of_mem inside)
    rw [List.map_cons, List.count_cons_self] at once
    omega
  have same {c : CallerId} (other : e.caller ≠ c) :
      (s.refused w y e m).callers.get? c = s.callers.get? c := by
    rw [known_refused found, if_neg other]
  have live : (s.refused w y e m).pending w m.queue = s.pending w m.queue := by
    refine List.filter_congr fun f inside ↦ ?_
    rw [awaits, awaits, same (apart inside)]
  obtain ⟨x, known, awaiting⟩ := awaits_iff.mp waits
  refine ⟨found, idle, .misrouted kept queue waits foreign, ?_, ?_, ?_, ?_, ?_, ?_⟩
  · rw [events_leave _ w _ granted fun c still ↦ fewer c (awaits_of_refused found e still),
      handbacks, live, events_refused found]
    rfl
  · obtain ⟨deadline, there⟩ := found_refused (m := m) found e
    exact ⟨deadline, (left_leave there _ _).trans (by rw [closed])⟩
  · intro f inside
    have pending : f ∈ (s.refused w y e m).pending w m.queue := by
      rw [live]
      exact inside
    obtain ⟨x, known, back⟩ := returned_leave (y := { y with mailbox := m.grant.2 })
      (s.refused w y e m) w .aborted granted pending
    have inside := List.mem_of_mem_filter inside
    obtain ⟨x', known', key, request⟩ := owned.carried found
      (List.mem_append_right _ (queue ▸ List.mem_cons_of_mem e inside))
    rw [same (apart inside)] at known
    obtain rfl := Option.some.inj (known.symm.trans known')
    exact ⟨x, known, key, request, back⟩
  · exact pending_once fewer
  · intro c r told
    obtain ⟨rfl, -, rfl⟩ := Event.answered.inj (List.mem_singleton.mp told)
    refine ⟨x, known, others_leave _ w _ _ ?_ (by simp)⟩
    rw [known_refused found, if_pos rfl, known, Option.map_some, Caller.reply,
      if_pos (Caller.awaits_iff.mpr awaiting)]
  · intro c x' known' apart
    have other : e.caller ≠ c := by
      rintro rfl
      obtain rfl := Option.some.inj (known.symm.trans known')
      exact apart awaiting
    exact others_leave _ w _ _ ((same other).trans known') apart

end Refusing

section Unread

/-- Put an identity in place of the one of a worker. -/
def identify (s : State) (w : WorkerId) (i : Option Identity) : State :=
  s.updateWorker w fun y ↦ { y with identity := i }

variable {m : Mailbox} (s : State) (w : WorkerId) (i : Option Identity)

/-- Other changes of a worker do not interfere with its identity. -/
theorem identify_updateWorker {f : Worker → Worker}
    (kept : ∀ y, f { y with identity := i } = { f y with identity := i }) :
    (s.identify w i).updateWorker w f = (s.updateWorker w f).identify w i := by
  unfold identify State.updateWorker
  dsimp only
  rw [Table.update_update, Table.update_update]
  exact congrArg (fun f ↦ { s with workers := s.workers.update w f }) (funext kept)

theorem identify_wake (τ : Task) : (s.identify w i).wake τ = (s.wake τ).identify w i :=
  wake_updateWorker s τ w _

theorem identify_wakeCallers (cs : List CallerId) :
    (s.identify w i).wakeCallers cs = (s.wakeCallers cs).identify w i :=
  wakeCallers_updateWorker s cs w _

theorem identify_log (event : Event) : (s.identify w i).log event = (s.log event).identify w i :=
  rfl

theorem identify_deliver (c : CallerId) (r : Reply) :
    (s.identify w i).deliver w c r = (s.deliver w c r).identify w i := by
  have waits : (s.identify w i).awaits c w = s.awaits c w := rfl
  rw [deliver, deliver, waits]
  split
  next =>
    rw [← identify_wake]
    rfl
  next => rfl

theorem identify_handBack (e : Envelope) :
    (s.identify w i).handBack w e = (s.handBack w e).identify w i := by
  have waits : (s.identify w i).awaits e.caller w = s.awaits e.caller w := rfl
  rw [handBack, handBack, waits]
  split
  next => rw [identify_log, identify_deliver]
  next => rfl

theorem identify_handBackAll (es : List Envelope) :
    es.foldl (fun s e ↦ s.handBack w e) (s.identify w i) =
      (es.foldl (fun s e ↦ s.handBack w e) s).identify w i := by
  induction es generalizing s with
  | nil => rfl
  | cons e es ih => rw [List.foldl_cons, List.foldl_cons, identify_handBack, ih]

theorem identify_hook (key : String) (reason : ExitReason) :
    (s.identify w i).hook w key reason = (s.hook w key reason).identify w i := by
  have detached : (((s.identify w i).log (.hooked w reason)).detach key w).2 =
      ((s.log (.hooked w reason)).detach key w).2.identify w i := by
    have named : ((s.identify w i).log (.hooked w reason)).find? key =
      (s.log (.hooked w reason)).find? key := rfl
    rw [detach, detach, named]
    split
    next => rfl
    next => rfl
  rw [hook, hook, detached]
  cases reason <;> rfl

/-- A worker that leaves does not look at its identity. -/
theorem identify_leave (y : Worker) (reason : ExitReason) :
    (s.identify w i).leave w { y with identity := i } reason =
      (s.leave w y reason).identify w i := by
  unfold leave closeMailbox
  dsimp only
  rw [identify_hook, identify_updateWorker _ _ _ fun _ ↦ rfl, identify_log, identify_wakeCallers,
    identify_handBackAll, identify_updateWorker _ _ _ fun _ ↦ rfl]
  rfl

theorem identify_grantPlace :
    (s.identify w i).grantPlace w = (s.grantPlace w).identify w i := by
  have there : (s.identify w i).workers.get? w =
      (s.workers.get? w).map fun y ↦ { y with identity := i } := by
    rw [identify, State.updateWorker, Table.get?_update, if_pos rfl]
  unfold grantPlace
  rw [there]
  cases found : s.workers.get? w with
  | none => rfl
  | some y =>
    rw [Option.map_some]
    dsimp only
    split
    next => rfl
    next => rw [identify_updateWorker _ _ _ fun _ ↦ rfl, identify_wake]

/-- A worker that refuses an envelope which is meant for another does not look at its identity. -/
theorem identify_refused (y : Worker) (e : Envelope) :
    (s.identify w i).refused w { y with identity := i } e m =
      (s.refused w y e m).identify w i := by
  have taken : (s.identify w i).taken w m = (s.taken w m).identify w i := by
    rw [taken, taken, identify_updateWorker _ _ _ fun _ ↦ rfl, identify_grantPlace]
  have armed (u : State) (wait : Nat) :
      (u.identify w i).alarmAfter wait =
        ((u.alarmAfter wait).1, (u.alarmAfter wait).2.identify w i) :=
    rfl
  unfold refused
  rw [taken]
  have policy : (s.identify w i).policy = s.policy := rfl
  rw [policy, armed]
  dsimp only
  rw [identify_updateWorker _ _ _ fun _ ↦ rfl, respond, respond, identify_log, identify_deliver]
  rfl

/-- What a worker does with an envelope that is meant for another is the same for every identity. -/
theorem identify_stepWorker {s : State} {w : WorkerId} (found : s.workers.get? w = some y)
    (idle : y.activity = .idle) (kept : y.cancelled = false)
    (popped : y.mailbox.pop? = some (e, m)) (waits : s.awaits e.caller w = true)
    (near : s.canReach s.policy.idleTimeout = true) (foreign : e.key ≠ y.key) :
    (s.identify w i).stepWorker w = (s.stepWorker w).identify w i := by
  have there : (s.identify w i).workers.get? w = some { y with identity := i } := by
    exact Table.get?_update_self found
  rw [stepWorker_misrouted found idle kept popped waits near foreign,
    stepWorker_misrouted (y := { y with identity := i }) there idle kept popped waits near foreign,
    identify_refused]
  exact identify_leave _ w i { y with mailbox := m.grant.2 } .aborted

end Unread

section Parting

/-- A worker that is changed is what the change makes of it. -/
theorem of_updated {f : Worker → Worker} (same : t.bare = u)
    (workers : u.workers = s.workers.update w f) (there : t.workers.get? w = some z) :
    ∃ y, f y = z := by
  have seen : t.workers = u.workers := seen_of_bare State.workers (fun _ ↦ rfl) same
  rw [seen, workers] at there
  obtain ⟨y, -, same⟩ := Table.of_update_self there
  exact ⟨y, same⟩

/-- A worker that has answered an envelope looks for something else to do. -/
theorem stays_complete {done : Result × Option Identity}
    (there : (s.complete w e done).workers.get? w = some z) : z.activity.isOver = false := by
  obtain ⟨x, rfl⟩ := of_updated (bare_complete s w e done) rfl there
  rfl

theorem stays_beginLookup {attempt wait : Nat}
    (there : (s.beginLookup w e attempt wait).workers.get? w = some z) :
    z.activity.isOver = false := by
  obtain ⟨x, rfl⟩ := of_updated (bare_beginLookup s w e attempt wait) rfl there
  rfl

/-- A worker that accepts a request does not leave before it has looked for something else. -/
theorem stays_handle (there : (s.handle w y e).workers.get? w = some z) :
    z.activity.isOver = false := by
  unfold handle at there
  dsimp only at there
  split at there
  next k _ =>
    obtain ⟨x, rfl⟩ := of_updated (bare_beginConnect _ w e k) rfl there
    rfl
  next => exact stays_complete there
  next => exact stays_complete there
  next =>
    split at there
    next => exact stays_complete there
    next => exact stays_beginLookup there

/-- A worker that dies does not leave. -/
theorem died_die (there : (s.die w y e).workers.get? w = some z) : z.activity = .died := by
  obtain ⟨x, rfl⟩ := of_updated (bare_die s w y e) rfl there
  rfl

/-- A worker that takes an envelope leaves only if the envelope is meant for another. -/
theorem departs_of_take {m : Mailbox} (owned : Owned s.workers s.callers)
    (found : s.workers.get? w = some y) (idle : y.activity = .idle) (kept : y.cancelled = false)
    (popped : y.mailbox.pop? = some (e, m))
    (taking : (s.taken w m).take w { y with mailbox := m.grant.2 } e = t)
    (there : t.workers.get? w = some z) (left : z.activity = .left reason) :
    ∃ told rest, Departs s t w y reason told rest := by
  have stays {p : Prop} (live : z.activity.isOver = false) : p :=
    absurd (left ▸ live) (by simp [Activity.isOver])
  by_cases waits : s.awaits e.caller w = true
  · by_cases near : s.canReach s.policy.idleTimeout = true
    · by_cases own : e.key = y.key
      · rw [take, awaits_taken found, waits, policy_taken found, canReach_taken found, near,
          if_neg (by simp), if_neg (by simp)] at taking
        dsimp only at taking
        rw [accept, if_pos own] at taking
        subst taking
        exact stays (stays_handle there)
      · rw [take_misrouted found waits near own] at taking
        subst taking
        have departs := departs_misrouted owned found idle kept popped waits own
        obtain ⟨_, there'⟩ := departs.left
        obtain rfl := Option.some.inj (there'.symm.trans there)
        obtain rfl := Activity.left.inj left
        exact ⟨_, _, departs⟩
    · rw [take_far found waits (by simpa using near)] at taking
      subst taking
      exact absurd ((died_die there).symm.trans left) (by simp)
  · rw [take, awaits_taken found, if_pos (by simpa using waits)] at taking
    subst taking
    obtain rfl := Option.some.inj ((found_taken found).symm.trans there)
    exact stays (by rw [show y.activity = .idle from idle]; rfl)

/-- A worker that looks for something to do and leaves departs. -/
theorem look_departs (owned : Owned s.workers s.callers) (found : s.workers.get? w = some y)
    (idle : y.activity = .idle) (looked : s.look w y = t) (there : t.workers.get? w = some z)
    (left : z.activity = .left reason) : ∃ told rest, Departs s t w y reason told rest := by
  have leaving {own : ExitReason} (cause : Leaves s w y own) (apart : own ≠ .aborted)
      (going : s.leave w y own = t) : ∃ told rest, Departs s t w y reason told rest := by
    subst going
    obtain rfl := Option.some.inj ((left_leave found y own).symm.trans there)
    obtain rfl := Activity.left.inj left
    exact ⟨_, _, departs_called owned found idle cause apart⟩
  by_cases cancelled : y.cancelled = true
  · rw [look, if_pos cancelled] at looked
    split at looked
    next closing => exact leaving (.shutdown cancelled closing) (by simp) looked
    next serving =>
      rw [Bool.not_eq_true] at serving
      exact leaving (.removed cancelled serving) (by simp) looked
  rw [Bool.not_eq_true] at cancelled
  cases popped : y.mailbox.pop? with
  | some pair =>
    obtain ⟨e, m⟩ := pair
    rw [look_of_pop found cancelled popped] at looked
    exact departs_of_take owned found idle cancelled popped looked there left
  | none =>
    have empty := Mailbox.queue_of_pop?_none popped
    rw [look, if_neg (by simp [cancelled]), popped] at looked
    dsimp only at looked
    split at looked
    next alone =>
      rw [Bool.and_eq_true, Bool.not_eq_true', Bool.not_eq_true'] at alone
      exact leaving (.released cancelled empty alone.1 alone.2) (by simp) looked
    next =>
      split at looked
      next late => exact leaving (.idled cancelled empty late) (by simp) looked
      next =>
        subst looked
        obtain rfl := Option.some.inj (found.symm.trans there)
        exact absurd (idle.symm.trans left) (by simp)

/-- A worker whose attempt to connect has ended does not leave. -/
theorem stays_connected {k : Credentials} {outcome : Ledger.Connection}
    (there : (s.connected w y e k outcome).workers.get? w = some z) :
    z.activity.isOver = false ∨ z.activity = .died := by
  cases outcome with
  | crash => exact .inr (died_die there)
  | refused fault => exact .inl (stays_complete there)
  | place place => exact .inl (stays_complete there)

/-- A worker whose lookup has ended does not leave. -/
theorem stays_lookedUp {attempt : Nat}
    (there : (s.lookedUp w y e attempt).workers.get? w = some z) : z.activity.isOver = false := by
  unfold lookedUp at there
  split at there
  next => exact stays_complete there
  next =>
    dsimp only at there
    split at there
    next => exact stays_complete there
    next => exact stays_beginLookup there

/-- A worker that leaves in one step has looked for something to do, and departs. -/
theorem stepWorker_departs (owned : Owned s.workers s.callers) (found : s.workers.get? w = some y)
    (live : y.activity.isOver = false) (there : (s.stepWorker w).workers.get? w = some z)
    (left : z.activity = .left reason) :
    ∃ told rest, Departs s (s.stepWorker w) w y reason told rest := by
  have stays {p : Prop} (live : z.activity.isOver = false ∨ z.activity = .died) : p := by
    rw [left] at live
    exact absurd live (by simp [Activity.isOver])
  have same {p : Prop} (here : s.rest.workers.get? w = some z) : p :=
    stays (.inl (Option.some.inj (found.symm.trans here) ▸ live))
  generalize stepped : s.stepWorker w = t at there ⊢
  unfold stepWorker at stepped
  rw [found] at stepped
  dsimp only at stepped
  split at stepped
  next idle => exact look_departs owned found idle stepped there left
  next e k outcome alarm connecting =>
    split at stepped
    next due => exact stays (stays_connected (stepped ▸ there))
    next => exact same (stepped ▸ there)
  next e attempt alarm syncing =>
    split at stepped
    next due => exact stays (.inl (stays_lookedUp (stepped ▸ there)))
    next => exact same (stepped ▸ there)
  next past =>
    rw [past] at live
    exact absurd live (by simp [Activity.isOver])
  next past =>
    rw [past] at live
    exact absurd live (by simp [Activity.isOver])

end Parting

end State

end Signatory.Service
