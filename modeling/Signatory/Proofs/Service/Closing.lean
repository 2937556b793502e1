import Signatory.Proofs.Service.Settling

/-!
# After a shutdown

Once a service is shut down every worker has been told to leave, so none takes anything out of its
mailbox any more, and every caller that looks for a worker is refused. What is left to do is little:
workers answer the requests in their hands and leave, and callers learn what has become of their
requests. A request that no worker has accepted by then comes to nothing: its call is cancelled,
unless the caller gives up first or a worker dies with the envelope. One that was with the third
worker already is not cancelled but finds no worker.
-/

namespace Signatory.Service

/-- Whether no worker is left that the request of a caller may be offered to, except the one that it
is with. -/
def Caller.isSpent (x : Caller) : Bool :=
  match x.phase with
  | .fresh | .seeking => x.tries = 0
  | _ => x.tries ≤ 1

namespace State

variable {o s t : State} {τ : Task} {w v : WorkerId} {y z : Worker} {c : CallerId} {x old : Caller}
  {e : Envelope}

/-- What is known of a service that has been shut down. -/
structure Closing (s : State) : Prop where
  shut : s.isShutDown = true
  told : ∀ {w y}, s.workers.get? w = some y → y.cancelled = true
  filed : s.Filed
  heard : s.Heard
  settles : ∀ w, s.Settles w

namespace Closing

/-- No caller offers its request to a worker. -/
theorem not_offers (h : s.Closing) (offers : Offers s c x w) : False := by
  rcases offers.target with direct | ⟨-, -, serving, -⟩
  · exact absurd (direct.symm.trans (h.filed.indirect offers.found)) (by simp)
  · exact absurd (h.shut.symm.trans serving) (by simp)

/-- No service that is shut down serves. -/
theorem not_serving (h : s.Closing) : s.isShutDown ≠ false := by
  rw [h.shut]
  simp

/-- No caller addresses a worker. -/
theorem not_direct (h : s.Closing) (found : s.callers.get? c = some x) : x.direct ≠ some v := by
  rw [h.filed.indirect found]
  simp

end Closing

section Lasting

/-- No change shuts a service down, or opens it again. -/
theorem Change.isShutDown (change : Change s τ t) : t.isShutDown = s.isShutDown := by
  cases change <;> rfl

/-- Workers that have been told to leave know it after a change, if none is created. -/
theorem Change.told_to_leave (change : Change s τ t) (size : t.workers.size = s.workers.size)
    (told : ∀ {w y}, s.workers.get? w = some y → y.cancelled = true)
    (there : t.workers.get? w = some z) : z.cancelled = true := by
  obtain ⟨y, found⟩ := Option.isSome_iff_exists.mp
    (Table.get?_isSome.mpr (size ▸ Table.lt_size there))
  obtain ⟨z', there', later⟩ := change.later.workers w y found
  obtain rfl := Option.some.inj (there.symm.trans there')
  exact later.cancelled (told found)

/-- After a shutdown no worker is created. -/
theorem Change.creates_none (h : s.Closing) (change : Change s τ t) :
    t.workers.size = s.workers.size ∧ t.stats.created = s.stats.created := by
  have exit (reason : ExitReason) : (s.stats.exit reason).created = s.stats.created := by
    cases reason <;> rfl
  cases change with
  | leave => exact ⟨Table.size_set, exit _⟩
  | spawn found seeking direct tries serving => exact absurd serving h.not_serving
  | lose =>
    refine ⟨rfl, ?_⟩
    dsimp only
    split <;> rfl
  | withdraw => exact ⟨Table.size_update _ _ _, rfl⟩
  | _ => exact ⟨by simp, rfl⟩

/-- A service that is shut down stays so. -/
theorem Change.closing (h : s.Closing) (change : Change s τ t) : t.Closing where
  shut := change.isShutDown.trans h.shut
  told := change.told_to_leave (change.creates_none h).1 h.told
  filed := change.filed h.filed
  heard := change.heard h.heard
  settles := fun w ↦ change.settles h.filed (h.settles w)

/-- A use leaves a service that is shut down so. -/
theorem Use.closing (h : s.Closing) (use : Use s t) : t.Closing where
  shut := use.later.shut h.shut
  told := by
    intro w z there
    obtain ⟨y, found, rfl | rfl⟩ := use.of_worker there
    · exact h.told found
    · rfl
  filed := use.filed h.filed
  heard := use.heard h.heard
  settles := fun w ↦ use.settles (h.settles w)

/-- After a shutdown no use creates a worker. -/
theorem Use.creates_none (h : s.Closing) (use : Use s t) :
    t.workers.size = s.workers.size ∧ t.stats.created = s.stats.created := by
  constructor
  · cases use with
    | remove => exact Table.size_update _ _ _
    | shutdown serving => exact absurd serving h.not_serving
    | _ => rfl
  · cases use <;> rfl

/-- What is known of a service that has been shut down holds in every state that can come about. -/
theorem Reachable.closing (h : s.Reachable) (shut : s.isShutDown = true) : s.Closing := by
  have kept := Reachable.invariant
    (P := fun s ↦ s.Ordered ∧ s.Heard ∧ (∀ w, s.Settles w) ∧ (s.isShutDown = true →
      ∀ w y, s.workers.get? w = some y → y.cancelled = true))
    (fun policy connector ↦ ⟨ordered_start policy connector, heard_start policy connector,
      settles_start policy connector, fun shut ↦ absurd shut (by simp [start])⟩)
    (fun {s τ t} h change ↦ ?_) (fun {s t} h use ↦ ?_) h
  · obtain ⟨ordered, heard, settles, told⟩ := kept
    exact ⟨shut, told shut _ _, h.ordered.filed, heard, settles⟩
  · obtain ⟨ordered, heard, settles, told⟩ := h
    refine ⟨change.ordered ordered, change.heard heard,
      fun w ↦ change.settles ordered.filed (settles w), fun shut ↦ ?_⟩
    have closing : s.Closing :=
      ⟨change.isShutDown ▸ shut, told (change.isShutDown ▸ shut) _ _, ordered.filed, heard, settles⟩
    exact fun w y ↦ (change.closing closing).told
  · obtain ⟨ordered, heard, settles, told⟩ := h
    refine ⟨use.ordered ordered, use.heard heard, fun w ↦ use.settles (settles w), fun shut ↦ ?_⟩
    by_cases before : s.isShutDown = true
    · have closing : s.Closing := ⟨before, told before _ _, ordered.filed, heard, settles⟩
      exact fun w y ↦ (use.closing closing).told
    · cases use with
      | shutdown serving cancelled =>
        intro w z there
        rw [cancelled w] at there
        obtain ⟨y, -, rfl⟩ := Option.map_eq_some_iff.mp there
        rfl
      | _ => exact absurd shut before

end Lasting

/-- Whether no worker is left that the request of a call may be offered to, except the one that it
is with. A call that has not begun can be offered to others. -/
def isSpent (s : State) (c : CallerId) : Bool :=
  match s.callers.get? c with
  | some x => x.isSpent
  | none => false

/-- No worker has accepted the request of a call, and the call is not over. -/
structure Unserved (s : State) (c : CallerId) : Prop where
  spared : ∀ w, c ∉ s.acceptances w
  live : ∀ x, s.callers.get? c = some x → x.phase.isEnded = false

/-- What has become of a call whose request no worker had accepted when a service was shut down. -/
inductive Refused (s t : State) (c : CallerId) (x : Caller) : Prop
  | waits (live : x.phase.isEnded = false) (same : x.isSpent = s.isSpent c)
  | cancelled (phase : x.phase = .ended (.result (.error .cancelled))) (more : s.isSpent c = false)
  | notFound (phase : x.phase = .ended (.result (.error (.notFound x.key))))
    (last : s.isSpent c = true)
  | withdrawn (phase : x.phase = .ended .withdrawn) (dropped : x.dropped = true)
  | timeout {limit : Nat} (phase : x.phase = .ended (.result (.error .timeout)))
    (limited : s.policy.requestTimeout = some limit)
  | stopped {w : WorkerId} {y : Worker}
    (phase : x.phase = .ended (.result (.error
      (.violation (.workerStopped x.key x.request.operation)))))
    (found : t.workers.get? w = some y) (own : y.key = x.key) (died : y.activity = .died)

/-- What a service does that has been shut down: it creates no worker and accepts no request,
finishes those that are in hand and refuses the others. -/
structure Closes (s t : State) : Prop where
  workers : t.workers.size = s.workers.size
  created : t.stats.created = s.stats.created
  accepted : ∀ w, t.acceptances w = s.acceptances w
  hands : ∀ {w y e}, s.workers.get? w = some y → y.activity.hand? = some e → Settled s t w y e
  calls : ∀ {c x}, t.callers.get? c = some x → s.Unserved c → Refused s t c x

/-- One step of a service that has been shut down. -/
structure Drains (s t : State) : Prop where
  later : s.Later t
  closing : s.Closing
  workers : t.workers.size = s.workers.size
  created : t.stats.created = s.stats.created
  retires : ∀ w, Retires s t w
  fares : ∀ {c x}, t.callers.get? c = some x →
    (c = s.callers.size ∧ ∃ key request, x = { key, request }) ∨
      ∃ old, s.callers.get? c = some old ∧ Fares s t c old x

/-- Every change of a service that has been shut down is such a step. -/
theorem Change.drains (h : s.Closing) (change : Change s τ t) : Drains s t where
  later := change.later
  closing := h
  workers := (change.creates_none h).1
  created := (change.creates_none h).2
  retires := fun _ ↦ change.retires fun _ ↦ h.told
  fares := fun here ↦ .inr (change.fares here)

/-- Every use of a service that has been shut down is such a step. -/
theorem Use.drains (h : s.Closing) (use : Use s t) : Drains s t where
  later := use.later
  closing := h
  workers := (use.creates_none h).1
  created := (use.creates_none h).2
  retires := fun _ ↦ use.retires
  fares := by
    intro c x here
    refine (use.becomes here).imp id fun ⟨old, found, becomes⟩ ↦ ⟨old, found, ?_⟩
    rcases becomes with rfl | rfl
    · exact .stay
    · exact .drop

section Refusing

/-- A call that goes on may be offered to others as before. -/
theorem Fares.spent (h : s.Closing) (fares : Fares s t c old x) (live : x.phase.isEnded = false) :
    x.isSpent = old.isSpent := by
  cases fares with
  | stay => rfl
  | begin fresh => simp [Caller.isSpent, fresh]
  | refuse offers => exact (h.not_offers offers).elim
  | push offers => exact (h.not_offers offers).elim
  | suspend offers => exact (h.not_offers offers).elim
  | back refused =>
    rcases refused with phase | phase
    · simp [Caller.isSpent, phase, Nat.sub_eq_zero_iff_le]
    · simp [Caller.isSpent, phase, Nat.sub_eq_zero_iff_le]
  | enqueue suspended => simp [Caller.isSpent, suspended]
  | reply awaiting => simp [Caller.isSpent, awaiting]
  | limit => rfl
  | drop => rfl
  | stop ends => exact absurd live (by simp [Phase.isEnded])

/-- A call that ends without ever having been accepted is refused. -/
theorem Ends.refused {ending : Ending} (h : s.Closing) (later : s.Later t)
    (policy : s.policy = o.policy) (found : s.callers.get? c = some x)
    (spared : ∀ w, c ∉ s.acceptances w) (same : x.isSpent = o.isSpent c)
    (ends : Ends s c x ending) : Refused o t c { x with phase := .ended ending } := by
  cases ends with
  | concludes cause =>
    cases cause with
    | result replied =>
      exact absurd (accepted_of_replied (h.settles _) h.heard found replied) (spared _)
    | rejected replied direct => exact absurd direct (h.not_direct found)
    | lost replied direct => exact absurd direct (h.not_direct found)
    | cancelled seeking direct tries closing =>
      exact .cancelled rfl (same.symm.trans (by simp [Caller.isSpent, seeking, tries]))
    | crashed seeking direct serving => exact absurd serving h.not_serving
    | closed suspended direct => exact absurd direct (h.not_direct found)
  | closed offers direct => exact absurd direct (h.not_direct found)
  | notFound seeking direct cause =>
    rcases cause with tries | ⟨serving, -⟩
    · exact .notFound rfl (same.symm.trans (by simp [Caller.isSpent, seeking, tries]))
    · exact absurd serving h.not_serving
  | lost replied =>
    obtain ⟨y, there, own, died⟩ := h.filed.stranded found replied
    obtain ⟨z, there', after⟩ := later.workers _ y there
    exact .stopped rfl there' (after.key.trans own) ((after.past (by rw [died]; rfl)).trans died)
  | givesUp live cause =>
    cases cause with
    | dropped dropped => exact .withdrawn rfl dropped
    | timeout waiting direct limited => exact .timeout rfl (policy ▸ limited)

/-- What has become of a call is not undone. -/
theorem Refused.keep (h : Refused o s c old) (later : s.Later t)
    (past : old.phase.isEnded = true) (same : x = old ∨ x = { old with dropped := true }) :
    Refused o t c x := by
  have phase : x.phase = old.phase := by rcases same with rfl | rfl <;> rfl
  have key : x.key = old.key := by rcases same with rfl | rfl <;> rfl
  have request : x.request = old.request := by rcases same with rfl | rfl <;> rfl
  cases h with
  | waits live => exact absurd (live.symm.trans past) (by simp)
  | cancelled refused more => exact .cancelled (phase.trans refused) more
  | notFound refused last => exact .notFound (phase.trans (key ▸ refused)) last
  | withdrawn refused dropped =>
    refine .withdrawn (phase.trans refused) ?_
    rcases same with rfl | rfl
    · exact dropped
    · rfl
  | timeout refused limited => exact .timeout (phase.trans refused) limited
  | stopped refused found own died =>
    obtain ⟨z, found', after⟩ := later.workers _ _ found
    exact .stopped (phase.trans (key ▸ request ▸ refused)) found'
      (after.key.trans (own.trans key.symm)) ((after.past (by rw [died]; rfl)).trans died)

/-- A call that has not been accepted goes on to be refused. -/
theorem Refused.fare (h : Refused o s c old) (closing : s.Closing) (later : s.Later t)
    (policy : s.policy = o.policy) (found : s.callers.get? c = some old)
    (spared : ∀ w, c ∉ s.acceptances w) (fares : Fares s t c old x) : Refused o t c x := by
  cases past : old.phase.isEnded with
  | true => exact h.keep later past (fares.past past)
  | false =>
    have same : old.isSpent = o.isSpent c := by
      have going {e : Ending} (phase : old.phase = .ended e) : False :=
        absurd past (by simp [phase, Phase.isEnded])
      cases h with
      | waits live same => exact same
      | cancelled phase => exact (going phase).elim
      | notFound phase => exact (going phase).elim
      | withdrawn phase => exact (going phase).elim
      | timeout phase => exact (going phase).elim
      | stopped phase => exact (going phase).elim
    cases live : x.phase.isEnded with
    | false => exact .waits live ((fares.spent closing live).trans same)
    | true =>
      cases fares with
      | stop ends => exact ends.refused closing later policy found spared same
      | stay => exact absurd (live.symm.trans past) (by simp)
      | drop => exact absurd (live.symm.trans past) (by simp)
      | limit => exact absurd (live.symm.trans past) (by simp)
      | _ => exact absurd live (by simp [Phase.isEnded])

end Refusing

/-- Nothing has happened yet when a service is shut down. -/
theorem Closes.refl (o : State) : Closes o o where
  workers := rfl
  created := rfl
  accepted := fun _ ↦ rfl
  hands := fun found hand ↦ .held found (.inl rfl) rfl .inl
  calls := fun {c x} found unserved ↦
    .waits (unserved.live x found) (by rw [isSpent, found])

/-- What has been done since a service was shut down goes on to be so. -/
theorem Closes.drain (h : Closes o s) (later : o.Later s) (drains : Drains s t) : Closes o t where
  workers := drains.workers.trans h.workers
  created := drains.created.trans h.created
  accepted := fun w ↦ (drains.retires w).accepted.trans (h.accepted w)
  hands := fun found hand ↦ (h.hands found hand).keep hand (drains.retires _)
  calls := by
    intro c x here unserved
    rcases drains.fares here with ⟨rfl, key, request, rfl⟩ | ⟨old, found, fares⟩
    · refine .waits rfl ?_
      rw [isSpent]
      cases known : o.callers.get? s.callers.size with
      | none => rfl
      | some x =>
        obtain ⟨y, found, -⟩ := later.callers _ x known
        exact absurd (Table.lt_size found) (Nat.lt_irrefl _)
    · have spared (w : WorkerId) : c ∉ s.acceptances w := h.accepted w ▸ unserved.spared w
      have refused := h.calls found unserved
      exact refused.fare drains.closing drains.later later.policy found spared fares

section Schedules

/-- Schedules do not matter for what is known of a service that has been shut down. -/
theorem Closing.bare (h : s.Closing) : s.bare.Closing where
  shut := h.shut
  told := h.told
  filed :=
    ⟨h.filed.named, h.filed.indirect, h.filed.target, h.filed.matched, h.filed.straight,
      h.filed.proper, h.filed.stranded⟩
  heard := h.heard
  settles := h.settles

theorem Refused.of_bare (h : Refused s.bare t.bare c x) : Refused s t c x := by
  cases h with
  | waits live same => exact .waits live same
  | cancelled phase more => exact .cancelled phase more
  | notFound phase last => exact .notFound phase last
  | withdrawn phase dropped => exact .withdrawn phase dropped
  | timeout phase limited => exact .timeout phase limited
  | stopped phase found own died => exact .stopped phase found own died

/-- Schedules do not matter for what a service does that has been shut down. -/
theorem Closes.of_bare (h : Closes s.bare t.bare) : Closes s t where
  workers := h.workers
  created := h.created
  accepted := h.accepted
  hands := fun found hand ↦ (h.hands found hand).of_bare
  calls := fun found unserved ↦ (h.calls found ⟨unserved.spared, unserved.live⟩).of_bare

end Schedules

/-- What a service does in a run once it has been shut down. -/
theorem Closing.closes (h : o.Closing) (run : Run o t) : Closes o t := by
  have kept := Run.preserve (P := fun u ↦ o.bare.Later u ∧ u.Closing ∧ Closes o.bare u)
    (fun ⟨later, closing, closes⟩ change ↦ ⟨later.trans change.later, change.closing closing,
      closes.drain later (change.drains closing)⟩)
    (fun ⟨later, closing, closes⟩ use ↦ ⟨later.trans use.later, use.closing closing,
      closes.drain later (use.drains closing)⟩)
    ⟨.refl _, h.bare, .refl _⟩ run
  exact kept.2.2.of_bare

end State

end Signatory.Service
