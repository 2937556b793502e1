import Signatory.Proofs.Service.Resting

/-!
# A worker on its own

A worker needs no service around it. Whoever holds it addresses it directly, with a request for its
key or for another, leaves envelopes with it whose callers are gone, tells it to leave, or lets go
of it. The order in which tasks run is left open here, except that no caller is taken out of the
schedule. So what holds of every run of such a worker holds of those that take the tasks in turn.
-/

namespace Signatory.Service

/-- The worker whose end an event is part of, if it is part of one. -/
def Event.parting? : Event → Option WorkerId
  | .hooked w _ | .closed w | .handedBack _ w | .died w => some w
  | _ => none

namespace State

/-- A worker for a key that has just been created. -/
def lone (policy : Policy) (connector : Ledger.Connector) (key : String) : State :=
  ((start policy connector).spawn key).2

/-- What happens next to a worker on its own. -/
inductive Solo : State → State → Prop
  | step {s t : State} (taken : s.step = some t) : Solo s t
  | call (s : State) (key : String) (request : Request) :
    Solo s (s.spawnCall { key, request, direct := some 0 }).2
  | abandon (s : State) (key : String) (request : Request) :
    Solo s (s.abandon 0 { key, request, direct := some 0 }).2
  | drop (s : State) (c : CallerId) : Solo s (s.dropCaller c)
  | cancel (s : State) : Solo s (s.cancel 0)
  | release (s : State) : Solo s (s.release 0)
  | shutdown (s : State) : Solo s s.shutdown
  | ledger (s : State) (name : String) (l : Ledger.Memory) : Solo s (s.setLedger name l)
  | wait (s : State) {time : Nat} (later : s.now ≤ time) : Solo s { s with now := time }
  | schedule {s t : State} (same : t.bare = s.bare) (kept : ∀ c, s.Attends c → t.Attends c) :
    Solo s t

/-- Whatever happens to a worker on its own. -/
abbrev Solos : State → State → Prop :=
  Relation.ReflTransGen Solo

/-- The states that can come about in a run of a worker on its own. -/
def Lone (policy : Policy) (connector : Ledger.Connector) (key : String) (s : State) : Prop :=
  Solos (lone policy connector key) s

/-- A worker on its own is run by letting the tasks run. -/
theorem solos_runReady (fuel : Nat) (s : State) : Solos s (runReady fuel s) := by
  induction fuel generalizing s with
  | zero => exact .refl
  | succ fuel ih =>
    unfold runReady
    split
    next => exact .refl
    next t taken => exact .head (.step taken) (ih t)

/-- What those who hold a worker can do to it. -/
inductive Touch (s : State) : State → Prop
  | use {t : State} (use : Use s t) (callers : t.callers.size = s.callers.size) : Touch s t
  | call (key : String) (request : Request) :
    Touch s { s with callers := s.callers.push { key, request, direct := some 0 } }
  | abandon {key : String} {request : Request} {y : Worker} (found : s.workers.get? 0 = some y)
    (opened : y.mailbox.closed = false) :
    Touch s
      { s with
        workers := s.workers.set 0
          { y with mailbox := y.mailbox.push ⟨key, request, s.callers.size⟩ }
        callers := s.callers.push
          { key, request, direct := some 0, phase := .ended .withdrawn } }
  | cancel : Touch s { s with workers := s.workers.update 0 fun y ↦ { y with cancelled := true } }
  | release : Touch s { s with workers := s.workers.update 0 fun y ↦ { y with isHeld := false } }

variable {s t u : State} {τ : Task} {w : WorkerId} {y z : Worker} {c : CallerId} {x : Caller}
  {key : String} {request : Request} {reason : ExitReason}

section Listing

/-- Leaving an envelope behind fails, or puts it into an open mailbox. -/
theorem touch_abandon (s : State) (key : String) (request : Request) :
    Touch s.bare (s.abandon 0 { key, request, direct := some 0 }).2.bare := by
  unfold State.abandon
  split
  next => exact .use .rest rfl
  next y found =>
    split
    next => exact .use .rest rfl
    next open_ =>
      rw [Bool.or_eq_true, not_or] at open_
      have found : s.bare.workers.get? 0 = some y := found
      dsimp only
      rw [bare_wakeWorker, bare_updateWorker]
      change Touch s.bare { s.bare with
        workers := s.bare.workers.update 0 _
        callers := s.bare.callers.push _ }
      rw [Table.update_eq_set found]
      exact .abandon found (Bool.not_eq_true _ ▸ open_.1)

theorem callers_shutdown (s : State) : s.shutdown.callers = s.callers := by
  unfold State.shutdown
  split
  next => rfl
  next =>
    obtain ⟨workers, same, -⟩ :=
      bare_cancelAll (List.range s.workers.size) ({ s with isShutDown := true }.log .shutDown)
    have callers := congrArg State.callers same
    exact callers

theorem size_dropCaller (s : State) (c : CallerId) :
    (s.dropCaller c).callers.size = s.callers.size := by
  unfold dropCaller
  split
  next => rfl
  next =>
    rw [callers_wake]
    exact Table.size_update _ _ _

/-- What happens next to a worker on its own is a step or one of the uses that are listed. -/
theorem Solo.step_or_touch (solo : Solo s t) : s.step = some t ∨ Touch s.bare t.bare := by
  cases solo with
  | step taken => exact .inl taken
  | call key request =>
    right
    change Touch s.bare ((s.addCaller { key, request, direct := some 0 }).2.wake _).bare
    rw [bare_wake]
    exact .call key request
  | abandon key request => exact .inr (touch_abandon s key request)
  | drop c => exact .inr (.use (use_dropCaller s c) (size_dropCaller s c))
  | cancel => exact .inr (bare_cancel s 0 ▸ .cancel)
  | release =>
    right
    rw [State.release, bare_wakeWorker, bare_updateWorker]
    exact .release
  | shutdown => exact .inr (.use (use_shutdown s) (congrArg _ (callers_shutdown s)))
  | ledger name l => exact .inr (.use (.ledger name l) rfl)
  | wait later => exact .inr (.use (.wait later) rfl)
  | schedule same => exact .inr (.use (same ▸ .rest) (congrArg (·.callers.size) same))

end Listing

section Keeping

/-- An envelope may be left with a worker by a caller who is new, and gone. -/
theorem owned_abandon (h : Owned s.workers s.callers) (found : s.workers.get? w = some y)
    {ending : Ending} (past : x.phase = .ended ending) :
    Owned (s.workers.set w
      { y with mailbox := y.mailbox.push ⟨x.key, x.request, s.callers.size⟩ })
      (s.callers.push x) := by
  have missing : s.callers.get? s.callers.size = none := Table.get?_size
  have phases (c : CallerId) : phase? (s.callers.push x) c =
      if c = s.callers.size then some x.phase else phase? s.callers c := by
    unfold phase?
    rw [Table.get?_push]
    split <;> rfl
  have held : Worker.held { y with
      mailbox := y.mailbox.push ⟨x.key, x.request, s.callers.size⟩ } =
        y.held ++ [s.callers.size] := by
    simp [Worker.held, Worker.envelopes, Mailbox.push]
  refine ⟨?_, ?_, ?_, ?_⟩
  · intro c v there at_v
    rw [phases]
    by_cases new : c = s.callers.size
    · subst new
      rw [if_pos rfl, past]
      have absent {v : WorkerId} {there : Worker} (at_v : s.workers.get? v = some there) :
          Fits none v there s.callers.size := by
        have old := h.fits (c := s.callers.size) at_v
        rwa [phase?, missing] at old
      rcases Table.of_set found at_v with ⟨rfl, rfl⟩ | ⟨-, at_v⟩
      · obtain ⟨-, most, lined⟩ := absent found
        refine ⟨Nat.zero_le _, ?_, lined⟩
        rw [held, List.count_append, List.count_singleton_self]
        exact Nat.add_le_add_right most 1
      · exact (absent at_v).move rfl rfl (Nat.zero_le 1)
    · rw [if_neg new]
      rcases Table.of_set found at_v with ⟨rfl, rfl⟩ | ⟨-, at_v⟩
      · refine (h.fits found).congr ?_ rfl rfl
        rw [held, List.count_append, List.count_singleton, if_neg (by simpa using Ne.symm new),
          Nat.add_zero]
      · exact h.fits at_v
  · intro c x' v known waits
    rcases Table.of_push known with ⟨-, rfl, -⟩ | known
    · rw [past] at waits
      exact absurd waits (by simp [Phase.host?])
    · obtain ⟨there, at_v⟩ := h.present known waits
      exact Table.exists_of_set found at_v
  · intro v there e at_v inside
    have old {z : Worker} (at_v : s.workers.get? v = some z) (inside : e ∈ z.envelopes) :
        ∃ x', (s.callers.push x).get? e.caller = some x' ∧ x'.key = e.key ∧
          x'.request = e.request := by
      obtain ⟨x', known, own⟩ := h.carried at_v inside
      exact ⟨x', Table.get?_push_of_found known, own⟩
    rcases Table.of_set found at_v with ⟨rfl, rfl⟩ | ⟨-, at_v⟩
    · have inside : e ∈ y.envelopes ++ [⟨x.key, x.request, s.callers.size⟩] := by
        rwa [Worker.envelopes, Mailbox.push, ← List.append_assoc] at inside
      rcases List.mem_append.mp inside with before | new
      · exact old found before
      · obtain rfl := List.mem_singleton.mp new
        exact ⟨x, Table.get?_push_self, rfl, rfl⟩
    · exact old at_v inside
  · intro v there at_v
    rcases Table.of_set found at_v with ⟨rfl, rfl⟩ | ⟨-, at_v⟩
    · exact h.shut (y := y) found
    · exact h.shut at_v

/-- Every use leaves each request where it belongs. -/
theorem Touch.owned (h : Owned s.workers s.callers) (touch : Touch s t) :
    Owned t.workers t.callers := by
  have update {f : Worker → Worker} (mailbox : ∀ y, (f y).mailbox = y.mailbox)
      (activity : ∀ y, (f y).activity = y.activity) :
      Owned (s.workers.update 0 f) s.callers := by
    cases found : s.workers.get? 0 with
    | none =>
      rw [Table.update_self fun y there ↦ absurd (found.symm.trans there) (by simp)]
      exact h
    | some y =>
      rw [Table.update_eq_set found]
      refine h.same_worker found ?_ (by rw [mailbox]) (by rw [mailbox]) (by rw [activity])
      rw [Worker.envelopes, Worker.envelopes, mailbox, activity]
  cases touch with
  | use use => exact use.owned h
  | call => exact h.push_caller rfl
  | @abandon key request _ found =>
    exact owned_abandon (x := { key, request, direct := some 0, phase := .ended .withdrawn }) h
      found rfl
  | cancel => exact update (fun _ ↦ rfl) fun _ ↦ rfl
  | release => exact update (fun _ ↦ rfl) fun _ ↦ rfl

/-- What a use does to one worker: it may be told to leave, let go of, or have another envelope in
its open mailbox, from a caller who is new. -/
theorem Touch.of_worker (touch : Touch s t) (there : t.workers.get? w = some z) :
    ∃ y, s.workers.get? w = some y ∧ z.key = y.key ∧ z.activity = y.activity ∧
      z.identity = y.identity ∧
      (z.mailbox = y.mailbox ∨ y.mailbox.closed = false ∧ ∃ key request,
        z.mailbox = y.mailbox.push ⟨key, request, s.callers.size⟩) := by
  have update {f : Worker → Worker} (there : (s.workers.update 0 f).get? w = some z)
      (kept : ∀ y, (f y).key = y.key ∧ (f y).activity = y.activity ∧
        (f y).identity = y.identity ∧ (f y).mailbox = y.mailbox) :
      ∃ y, s.workers.get? w = some y ∧ z.key = y.key ∧ z.activity = y.activity ∧
        z.identity = y.identity ∧ z.mailbox = y.mailbox := by
    obtain ⟨y, found, ⟨-, rfl⟩ | ⟨-, rfl⟩⟩ := Table.of_update there
    · exact ⟨y, found, kept y⟩
    · exact ⟨z, found, rfl, rfl, rfl, rfl⟩
  have same (kept : ∃ y, s.workers.get? w = some y ∧ z.key = y.key ∧ z.activity = y.activity ∧
      z.identity = y.identity ∧ z.mailbox = y.mailbox) :
      ∃ y, s.workers.get? w = some y ∧ z.key = y.key ∧ z.activity = y.activity ∧
        z.identity = y.identity ∧
        (z.mailbox = y.mailbox ∨ y.mailbox.closed = false ∧ ∃ key request,
          z.mailbox = y.mailbox.push ⟨key, request, s.callers.size⟩) := by
    obtain ⟨y, found, key, activity, identity, mailbox⟩ := kept
    exact ⟨y, found, key, activity, identity, .inl mailbox⟩
  cases touch with
  | use use =>
    obtain ⟨y, found, rfl | rfl⟩ := use.of_worker there
    · exact same ⟨_, found, rfl, rfl, rfl, rfl⟩
    · exact same ⟨y, found, rfl, rfl, rfl, rfl⟩
  | call => exact same ⟨z, there, rfl, rfl, rfl, rfl⟩
  | @abandon key request y found opened =>
    rcases Table.of_set found there with ⟨rfl, rfl⟩ | ⟨-, there⟩
    · exact ⟨y, found, rfl, rfl, rfl, .inr ⟨opened, key, request, rfl⟩⟩
    · exact same ⟨z, there, rfl, rfl, rfl, rfl⟩
  | cancel => exact same (update there fun _ ↦ ⟨rfl, rfl, rfl, rfl⟩)
  | release => exact same (update there fun _ ↦ ⟨rfl, rfl, rfl, rfl⟩)

/-- What a use does to one caller: it may be dropped, or it is new and addresses the worker. -/
theorem Touch.of_caller (touch : Touch s t) (there : t.callers.get? c = some x) :
    (c = s.callers.size ∧ x.direct = some 0 ∧
      (x.phase = .fresh ∨ x.phase = .ended .withdrawn)) ∨
    ∃ old, s.callers.get? c = some old ∧ (x = old ∨ x = { old with dropped := true }) := by
  have push {new : Caller} (direct : new.direct = some 0)
      (phase : new.phase = .fresh ∨ new.phase = .ended .withdrawn)
      (there : (s.callers.push new).get? c = some x) :
      (c = s.callers.size ∧ x.direct = some 0 ∧
        (x.phase = .fresh ∨ x.phase = .ended .withdrawn)) ∨
      ∃ old, s.callers.get? c = some old ∧ (x = old ∨ x = { old with dropped := true }) := by
    rcases Table.of_push there with ⟨same, rfl, -⟩ | there
    · exact .inl ⟨same, direct, phase⟩
    · exact .inr ⟨x, there, .inl rfl⟩
  cases touch with
  | use use size =>
    refine .inr ((use.becomes there).resolve_left ?_)
    rintro ⟨rfl, -⟩
    exact absurd (size ▸ Table.lt_size there) (Nat.lt_irrefl _)
  | call => exact push rfl (.inl rfl) there
  | abandon => exact push rfl (.inr rfl) there
  | cancel => exact .inr ⟨x, there, .inl rfl⟩
  | release => exact .inr ⟨x, there, .inl rfl⟩

/-- A use records no more than that a worker is removed or the service shut down. -/
theorem Touch.journal (touch : Touch s t) :
    ∃ new, t.journal = new ++ s.journal ∧
      ∀ entry ∈ new, (∃ w, entry.event = .removed w) ∨ entry.event = .shutDown := by
  have none : ∃ new : List Entry, s.journal = new ++ s.journal ∧
      ∀ entry ∈ new, (∃ w, entry.event = .removed w) ∨ entry.event = .shutDown :=
    ⟨[], rfl, fun _ inside ↦ absurd inside List.not_mem_nil⟩
  cases touch with
  | use use =>
    cases use with
    | remove =>
      refine ⟨[_], rfl, fun entry inside ↦ ?_⟩
      rw [List.mem_singleton.mp inside]
      exact .inl ⟨_, rfl⟩
    | shutdown =>
      refine ⟨[_], rfl, fun entry inside ↦ ?_⟩
      rw [List.mem_singleton.mp inside]
      exact .inr rfl
    | _ => exact none
  | _ => exact none

end Keeping

section Staying

/-- The end of a worker is only recorded when it comes to its end. -/
theorem Change.unparted (change : Change s τ t) (there : t.workers.get? w = some z)
    (live : z.activity.isOver = false)
    (whole : ∀ event ∈ s.events, event.parting? ≠ some w) :
    ∀ event ∈ t.events, event.parting? ≠ some w := by
  intro event inside
  have other {v : WorkerId} {y next : Worker} (found : s.workers.get? v = some y)
      (past : next.activity.isOver = true) (there : (s.workers.set v next).get? w = some z) :
      v ≠ w := by
    rintro rfl
    obtain rfl := Option.some.inj ((Table.get?_set_self found).symm.trans there)
    exact absurd (past.symm.trans live) (by simp)
  cases change with
  | leave found =>
    have other := other found rfl there
    rcases mem_events_leave.mp inside with ⟨_, _, _, rfl⟩ | rfl | rfl | old
    · exact fun same ↦ other (Option.some.inj same)
    · exact fun same ↦ other (Option.some.inj same)
    · exact fun same ↦ other (Option.some.inj same)
    · exact whole event old
  | die found =>
    have other := other found rfl there
    rcases List.mem_cons.mp inside with rfl | inside
    · exact fun same ↦ other (Option.some.inj same)
    · rcases List.mem_cons.mp inside with rfl | old
      · exact fun same ↦ other (Option.some.inj same)
      · exact whole event old
  | _ =>
    simp only [events, List.map_cons, List.mem_cons] at inside
    grind [Event.parting?, events]

/-- A worker whose exit hook has run has left for the reason that the hook was told. -/
theorem Change.left_of_hooked (change : Change s τ t) (new : .hooked w reason ∈ t.events) :
    .hooked w reason ∈ s.events ∨
      ∃ z, t.workers.get? w = some z ∧ z.activity = .left reason := by
  cases change with
  | leave found =>
    rcases mem_events_leave.mp new with ⟨_, _, _, back⟩ | closed | own | old
    · exact absurd back (by simp)
    · exact absurd closed (by simp)
    · obtain ⟨rfl, rfl⟩ := Event.hooked.inj own
      exact .inr ⟨_, Table.get?_set_self found, rfl⟩
    · exact .inl old
  | _ => exact .inl (by simpa [events] using new)

/-- No worker is created if every caller addresses one. -/
theorem Change.size_of_direct (change : Change s τ t)
    (direct : ∀ c x, s.callers.get? c = some x → x.direct = some 0) :
    t.workers.size = s.workers.size := by
  cases change with
  | spawn found _ none => exact absurd ((direct _ _ found).symm.trans none) (by simp)
  | _ => simp

/-- A caller addresses the same worker as before. -/
theorem Change.direct (change : Change s τ t) (here : t.callers.get? c = some x) :
    ∃ old, s.callers.get? c = some old ∧ x.direct = old.direct := by
  rcases change.caller here with found | ⟨old, found, moves⟩
  · exact ⟨x, found, rfl⟩
  · exact ⟨old, found, by cases moves <;> rfl⟩

/-- There is one worker, for the given key; whoever calls addresses it. Its end is not recorded
before it has come, and its exit hook only runs when it leaves. -/
structure Single (key : String) (s : State) : Prop where
  present : ∃ y, s.workers.get? 0 = some y
  only : ∀ w y, s.workers.get? w = some y → w = 0 ∧ y.key = key
  direct : ∀ c x, s.callers.get? c = some x → x.direct = some 0
  owned : Owned s.workers s.callers
  empty : s.Emptied
  whole : ∀ y, s.workers.get? 0 = some y → y.activity.isOver = false →
    ∀ event ∈ s.events, event.parting? ≠ some 0
  hooked : ∀ reason, .hooked 0 reason ∈ s.events →
    ∃ y, s.workers.get? 0 = some y ∧ y.activity = .left reason

/-- Every change leaves one worker. -/
theorem Change.single (h : s.Single key) (change : Change s τ t) : t.Single key where
  present := by
    obtain ⟨y, found⟩ := h.present
    obtain ⟨z, there, -⟩ := change.later.workers 0 y found
    exact ⟨z, there⟩
  only := by
    intro w z there
    have inside := Table.lt_size there
    rw [change.size_of_direct h.direct] at inside
    obtain ⟨y, found⟩ := Option.isSome_iff_exists.mp (Table.get?_isSome.mpr inside)
    obtain ⟨z', there', later⟩ := change.later.workers w y found
    obtain rfl := Option.some.inj (there.symm.trans there')
    exact ⟨(h.only w y found).1, later.key.trans (h.only w y found).2⟩
  direct := by
    intro c x here
    obtain ⟨old, found, same⟩ := change.direct here
    exact same.trans (h.direct c old found)
  owned := change.owned h.owned
  empty := change.emptied h.empty
  whole := by
    intro z there live
    obtain ⟨y, found⟩ := h.present
    obtain ⟨z', there', later⟩ := change.later.workers 0 y found
    obtain rfl := Option.some.inj (there.symm.trans there')
    refine change.unparted there live (h.whole y found ?_)
    exact Bool.eq_false_iff.mpr fun past ↦
      absurd ((later.past past ▸ past).symm.trans live) (by simp)
  hooked := by
    intro reason new
    rcases change.left_of_hooked new with old | left
    · obtain ⟨y, found, left⟩ := h.hooked reason old
      obtain ⟨z, there, later⟩ := change.later.workers 0 y found
      exact ⟨z, there, (later.past (by rw [left]; rfl)).trans left⟩
    · exact left

/-- What a use records is no part of the end of a worker. -/
theorem Touch.recorded {event : Event} (touch : Touch s t) (inside : event ∈ t.events)
    (parting : ∀ w, event ≠ .removed w) (open_ : event ≠ .shutDown) : event ∈ s.events := by
  obtain ⟨new, journal, other⟩ := touch.journal
  rw [events, journal, List.map_append] at inside
  rcases List.mem_append.mp inside with new | old
  · obtain ⟨entry, listed, rfl⟩ := List.mem_map.mp new
    rcases other entry listed with ⟨w, same⟩ | same
    · exact absurd same (parting w)
    · exact absurd same open_
  · exact old

/-- A worker stays when it is used. -/
theorem Touch.present (touch : Touch s t) (found : s.workers.get? w = some y) :
    ∃ z, t.workers.get? w = some z := by
  have update (f : Worker → Worker) : ∃ z, (s.workers.update 0 f).get? w = some z := by
    rw [Table.get?_update, found]
    split
    next => exact ⟨_, rfl⟩
    next => exact ⟨_, rfl⟩
  cases touch with
  | use use => exact (use.later.workers w y found).imp fun _ ↦ And.left
  | call => exact ⟨y, found⟩
  | abandon there =>
    rw [Table.get?_set there]
    split
    next => exact ⟨_, rfl⟩
    next => exact ⟨y, found⟩
  | cancel => exact update _
  | release => exact update _

/-- A caller stays when the worker is used. -/
theorem Touch.known (touch : Touch s t) (known : s.callers.get? c = some x) :
    ∃ x', t.callers.get? c = some x' := by
  have push (new : Caller) : ∃ x', (s.callers.push new).get? c = some x' :=
    ⟨x, Table.get?_push_of_found known⟩
  cases touch with
  | use use => exact (use.later.callers c x known).imp fun _ ↦ And.left
  | call => exact push _
  | abandon => exact push _
  | cancel => exact ⟨x, known⟩
  | release => exact ⟨x, known⟩

/-- Every use leaves one worker. -/
theorem Touch.single (h : s.Single key) (touch : Touch s t) : t.Single key where
  present := by
    obtain ⟨y, found⟩ := h.present
    exact touch.present found
  only := by
    intro w z there
    obtain ⟨y, found, same, -⟩ := touch.of_worker there
    exact ⟨(h.only w y found).1, same.trans (h.only w y found).2⟩
  direct := by
    intro c x here
    rcases touch.of_caller here with ⟨-, direct, -⟩ | ⟨old, found, rfl | rfl⟩
    · exact direct
    · exact h.direct c _ found
    · exact h.direct c old found
  owned := touch.owned h.owned
  empty := by
    intro w z there closed
    obtain ⟨y, found, -, -, -, same | ⟨opened, _, _, pushed⟩⟩ := touch.of_worker there
    · rw [same] at closed ⊢
      exact h.empty w y found closed
    · rw [pushed] at closed
      exact absurd (opened.symm.trans closed) (by simp)
  whole := by
    intro z there live event inside parting
    obtain ⟨y, found, -, activity, -⟩ := touch.of_worker there
    refine h.whole y found (activity ▸ live) event (touch.recorded inside ?_ ?_) parting
    · rintro w rfl
      exact absurd parting (by simp [Event.parting?])
    · rintro rfl
      exact absurd parting (by simp [Event.parting?])
  hooked := by
    intro reason new
    obtain ⟨y, found, left⟩ := h.hooked reason (touch.recorded new (by simp) (by simp))
    obtain ⟨z, there⟩ := touch.present found
    obtain ⟨y', found', -, activity, -⟩ := touch.of_worker there
    obtain rfl := Option.some.inj (found.symm.trans found')
    exact ⟨z, there, activity.trans left⟩

/-- A worker that has just been created is the only one. -/
theorem single_lone (policy : Policy) (connector : Ledger.Connector) (key : String) :
    (lone policy connector key).bare.Single key := by
  have effect := bare_spawn (start policy connector) key
  have size : (start policy connector).workers.size = 0 := rfl
  rw [size] at effect
  rw [lone, effect]
  have worker {w : WorkerId} {y z : Worker}
      (found : ((start policy connector).workers.push z).get? w = some y) : w = 0 ∧ y = z := by
    rcases Table.of_push found with ⟨new, same, -⟩ | found
    · exact ⟨new.trans size, same⟩
    · exact absurd ((Table.get?_empty w).symm.trans found) (by simp)
  have caller {c : CallerId} {x : Caller} {p : Prop}
      (found : (start policy connector).callers.get? c = some x) : p :=
    absurd ((Table.get?_empty c).symm.trans found) (by simp)
  refine ⟨⟨_, Table.get?_push .. ▸ if_pos rfl⟩, fun w y found ↦ ?_, fun c x ↦ caller,
    ?_, ?_, ?_, ?_⟩
  · obtain ⟨rfl, rfl⟩ := worker found
    exact ⟨rfl, rfl⟩
  · exact (owned_start policy connector).push_worker rfl rfl rfl
  · intro w y found closed
    obtain ⟨-, rfl⟩ := worker found
    rfl
  · intro y found live event inside
    obtain rfl := List.mem_singleton.mp inside
    simp [Event.parting?]
  · intro reason hooked
    exact absurd (List.mem_singleton.mp hooked) (by simp)

/-- There is one worker in every run of a worker on its own. -/
theorem Solos.single (h : s.bare.Single key) (solos : Solos s t) : t.bare.Single key := by
  induction solos with
  | refl => exact h
  | tail _ solo ih =>
    rcases solo.step_or_touch with taken | touch
    · rcases step_changes taken with ⟨τ, -, changes⟩ | same
      · exact Changes.preserve (fun h change ↦ change.single h) ih changes
      · exact same ▸ ih
    · exact touch.single ih

end Staying

section Heeding

/-- No step forgets a caller. -/
theorem Heeded.step (h : s.Heeded) (owned : Owned s.workers s.callers) (taken : s.step = some t) :
    t.Heeded := by
  cases running : s.running with
  | some τ =>
    have kept {u : State} (stirs : Stirs τ s u) :
        Owned u.bare.workers u.bare.callers ∧ u.Heeded := by
      induction stirs with
      | refl => exact ⟨owned, h⟩
      | tail _ stir ih =>
        have owned := stir.change.owned ih.1
        exact ⟨owned, stir.heeded ih.2 owned⟩
    exact (kept (step_stirs running taken)).2
  | none =>
    unfold State.step at taken
    rw [running] at taken
    dsimp only at taken
    split at taken
    next τ ready queue => exact Option.some.inj taken ▸ h.next running queue
    next =>
      split at taken
      next c foremost =>
        split at taken
        next =>
          obtain rfl := Option.some.inj taken
          exact h.lead running (fun d same ↦ Option.some.inj (same.symm.trans foremost))
            s.foreground false
        next => exact absurd taken (by simp)
      next => exact absurd taken (by simp)

/-- Whoever is in the schedule stays there when a task is woken. -/
theorem Attends.wake (attends : s.Attends c) (τ : Task) : (s.wake τ).Attends c :=
  attends.imp (running_wake s τ).trans (called_of_wake τ)

theorem Attends.wakeWorker (attends : s.Attends c) (w : WorkerId) : (s.wakeWorker w).Attends c := by
  unfold State.wakeWorker
  split
  next =>
    split
    next => exact attends.wake _
    next => exact attends
  next => exact attends

theorem Attends.cancelAll (attends : s.Attends c) (ws : List WorkerId) :
    (ws.foldl cancel s).Attends c := by
  induction ws generalizing s with
  | nil => exact attends
  | cons w ws ih =>
    have updated : (s.updateWorker w fun y ↦ { y with cancelled := true }).Attends c := attends
    exact ih (updated.wakeWorker w)

/-- Whoever is in the schedule stays there, whatever those do who hold the worker. -/
theorem Solo.attends (solo : Solo s t) (attends : s.Attends c) :
    s.step = some t ∨ t.Attends c := by
  cases solo with
  | step taken => exact .inl taken
  | call key request =>
    have added : (s.addCaller { key, request, direct := some 0 }).2.Attends c := attends
    exact .inr (added.wake _)
  | abandon key request =>
    right
    unfold State.abandon
    split
    next => exact attends
    next =>
      split
      next => exact attends
      next =>
        have left : ((s.addCaller
          { key, request, direct := some 0, phase := .ended .withdrawn }).2.updateWorker 0 fun y ↦
            { y with mailbox := y.mailbox.push ⟨key, request, s.callers.size⟩ }).Attends c :=
          attends
        exact left.wakeWorker 0
  | drop d =>
    right
    unfold dropCaller
    split
    next => exact attends
    next =>
      have dropped : (s.updateCaller d fun x ↦ { x with dropped := true }).Attends c := attends
      exact dropped.wake _
  | cancel =>
    have told : (s.updateWorker 0 fun y ↦ { y with cancelled := true }).Attends c := attends
    exact .inr (told.wakeWorker 0)
  | release =>
    have released : (s.updateWorker 0 fun y ↦ { y with isHeld := false }).Attends c := attends
    exact .inr (released.wakeWorker 0)
  | shutdown =>
    right
    unfold State.shutdown
    split
    next => exact attends
    next =>
      have shut : ({ s with isShutDown := true }.log .shutDown).Attends c := attends
      exact shut.cancelAll _
  | ledger => exact .inr attends
  | wait => exact .inr attends
  | schedule same kept => exact .inr (kept c attends)

/-- A caller that begins to call is in the schedule. -/
theorem Solo.begins (solo : Solo s t) (here : t.callers.get? s.callers.size = some x)
    (fresh : x.phase = .fresh) : s.step = some t ∨ t.Attends s.callers.size := by
  have old (same : t.callers.size = s.callers.size) : t.Attends s.callers.size :=
    absurd (same ▸ Table.lt_size here) (Nat.lt_irrefl _)
  cases solo with
  | step taken => exact .inl taken
  | call => exact .inr (.inr (called_wake _ _))
  | abandon key request =>
    right
    unfold State.abandon at here old ⊢
    split at here
    next missing =>
      rw [missing] at old
      exact absurd (Table.lt_size here) (Nat.lt_irrefl _)
    next y found =>
      split at here
      next => exact absurd (Table.lt_size here) (Nat.lt_irrefl _)
      next =>
        dsimp only at here
        have same := congrArg State.callers (bare_wakeWorker ((s.addCaller
          { key, request, direct := some 0, phase := .ended .withdrawn }).2.updateWorker 0 fun y ↦
            { y with mailbox := y.mailbox.push ⟨key, request, s.callers.size⟩ }) 0)
        have here := (congrArg (·.get? s.callers.size) same).symm.trans here
        change (s.callers.push _).get? _ = _ at here
        obtain rfl := Option.some.inj (Table.get?_push_self.symm.trans here)
        exact absurd fresh (by simp)
  | drop d => exact .inr (old (size_dropCaller s d))
  | cancel => exact .inr (old (congrArg (·.callers.size) (bare_cancel s 0)))
  | release =>
    refine .inr (old ?_)
    have same := congrArg State.callers
      (bare_wakeWorker (s.updateWorker 0 fun y ↦ { y with isHeld := false }) 0)
    exact congrArg Table.size same
  | shutdown => exact .inr (old (congrArg _ (callers_shutdown s)))
  | ledger => exact .inr (old rfl)
  | wait => exact .inr (old rfl)
  | schedule same => exact .inr (old (congrArg (·.callers.size) same))

/-- Nothing that happens to a worker on its own forgets a caller. -/
theorem Solo.heeded (h : s.Heeded) (owned : Owned s.workers s.callers) (solo : Solo s t) :
    t.Heeded := by
  rcases solo.step_or_touch with taken | touch
  · exact h.step owned taken
  · intro c x here
    have here : t.bare.callers.get? c = some x := here
    rcases touch.of_caller here with ⟨rfl, -, fresh | gone⟩ | ⟨old, found, same⟩
    · rcases solo.begins here fresh with taken | attends
      · exact h.step owned taken _ x here
      · exact .inl attends
    · exact .inr (.past (by rw [gone]; rfl))
    · have phase : x.phase = old.phase := by rcases same with rfl | rfl <;> rfl
      rcases h c old found with attends | stands
      · rcases solo.attends attends with taken | attends
        · exact h.step owned taken _ x here
        · exact .inl attends
      · right
        cases stands with
        | past past => exact .past (phase ▸ past)
        | reply awaiting => exact .reply (phase.trans awaiting)
        | @line v y suspended there waits =>
          obtain ⟨z, there'⟩ := touch.present there
          obtain ⟨y', found', -, -, -, mailbox⟩ := touch.of_worker there'
          obtain rfl := Option.some.inj (Eq.trans (Eq.symm there) found')
          have waiting : z.mailbox.waiting = y.mailbox.waiting := by
            rcases mailbox with same | ⟨-, _, _, pushed⟩
            · rw [same]
            · rw [pushed]
              rfl
          exact .line (phase.trans suspended) there' (waiting ▸ waits)

end Heeding

section Running

variable {policy : Policy} {connector : Ledger.Connector}

theorem Lone.single (h : Lone policy connector key s) : s.Single key := by
  have kept := Solos.single (single_lone policy connector key) h
  exact ⟨kept.present, kept.only, kept.direct, kept.owned, kept.empty, kept.whole, kept.hooked⟩

/-- No caller is forgotten in a run of a worker on its own. -/
theorem Lone.heeded (h : Lone policy connector key s) : s.Heeded := by
  induction h with
  | refl =>
    intro c x known
    have same := congrArg State.callers (bare_spawn (start policy connector) key)
    have known := (congrArg (·.get? c) same).symm.trans known
    exact absurd ((Table.get?_empty c).symm.trans known) (by simp)
  | tail before solo ih =>
    have h : Lone policy connector key _ := before
    exact solo.heeded ih h.single.owned

end Running

end State

end Signatory.Service
