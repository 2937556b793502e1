import Signatory.Proofs.Service.Moves

/-!
# What a worker has answered

Each worker gives its answers one at a time, each to an envelope that it has, and nothing but an
answer changes its identity.
-/

namespace Signatory.Service

/-- What an event tells about the answers of a worker. -/
def Event.answer? (w : WorkerId) : Event → Option (CallerId × Result)
  | .answered c v r => if v = w then some (c, r) else none
  | _ => none

/-- What an event tells about the requests that a worker accepts. -/
def Event.acceptance? (w : WorkerId) : Event → Option CallerId
  | .accepted c v => if v = w then some c else none
  | _ => none

namespace State

variable {s t : State} {τ : Task} {w v : WorkerId} {worker y z : Worker} {e : Envelope}
  {c : CallerId} {r : Result}

/-- What a worker answers to an envelope, and how that leaves its identity. -/
inductive Answers (s : State) (worker : Worker) (e : Envelope) : Result × Option Identity → Prop
  | misrouted (foreign : e.key ≠ worker.key) :
    Answers s worker e (.error (.violation (.misrouted e.key worker.key)), worker.identity)
  | served {done : Result × Option Identity} (serves : Serves worker e.request done) :
    Answers s worker e done
  | finished {done : Result × Option Identity} {ledgers : List (String × Ledger.Memory)}
    (finishes : Finishes s worker e done ledgers) : Answers s worker e done

/-- What a worker has answered, the earliest first. -/
def history (s : State) (w : WorkerId) : List (CallerId × Result) :=
  (s.events.filterMap (Event.answer? w)).reverse

/-- Whose requests a worker has accepted, the earliest first. -/
def acceptances (s : State) (w : WorkerId) : List CallerId :=
  (s.events.filterMap (Event.acceptance? w)).reverse

/-- The identity of a worker. -/
def identity? (s : State) (w : WorkerId) : Option Identity :=
  (s.workers.get? w).bind (·.identity)

/-- A worker that gives no answer keeps its identity, whatever else becomes of it. -/
theorem identity?_set (found : s.workers.get? v = some y) (same : z.identity = y.identity)
    (w : WorkerId) :
    ((s.workers.set v z).get? w).bind (·.identity) = s.identity? w := by
  unfold identity?
  rw [Table.get?_set found]
  by_cases here : v = w
  · rw [if_pos here, ← here, found]
    exact same
  · rw [if_neg here]

/-- What a change does to the answers of one worker: it gives at most one, to an envelope that it
has, and its identity is what the answer leaves. -/
inductive Told (s t : State) (w : WorkerId) : Prop
  | silent (history : t.history w = s.history w) (identity : t.identity? w = s.identity? w)
  | told {worker : Worker} {e : Envelope} {r : Result}
    (found : s.workers.get? w = some worker) (inside : e ∈ worker.envelopes)
    (answers : Answers s worker e (r, t.identity? w))
    (history : t.history w = s.history w ++ [(e.caller, r)])

/-- What comes back to callers is recorded as handed back, and as nothing else. -/
theorem returned (time : Nat) (v : WorkerId) (es : List Envelope) (callers : Table Caller) :
    ∀ event ∈ (returns time v es callers).map (·.event), ∃ c, event = .handedBack c v := by
  intro event back
  obtain ⟨entry, here, rfl⟩ := List.mem_map.mp back
  obtain ⟨e, -, -, rfl⟩ := mem_returns.mp here
  exact ⟨_, rfl⟩

/-- What comes back to callers tells nothing if an envelope that comes back does not. -/
theorem filterMap_returns {α : Type} {f : Event → Option α} (time : Nat) (v : WorkerId)
    (es : List Envelope) (callers : Table Caller) (silent : ∀ c, f (.handedBack c v) = none) :
    ((returns time v es callers).map (·.event)).filterMap f = [] := by
  apply List.filterMap_eq_nil_iff.mpr
  intro event back
  obtain ⟨c, rfl⟩ := returned time v es callers event back
  exact silent c

/-- What comes back to callers is no answer. -/
theorem answer?_returns (time : Nat) (v : WorkerId) (es : List Envelope) (callers : Table Caller)
    (w : WorkerId) :
    ((returns time v es callers).map (·.event)).filterMap (Event.answer? w) = [] :=
  filterMap_returns time v es callers fun _ ↦ rfl

/-- What an event tells, if it tells anything, comes after what the earlier ones tell. -/
theorem reverse_filterMap_cons {α : Type} {f : Event → Option α} {event : Event}
    {earlier : List Event} {p : Prop} [Decidable p] {a : α}
    (tells : f event = if p then some a else none) :
    ((event :: earlier).filterMap f).reverse =
      (earlier.filterMap f).reverse ++ if p then [a] else [] := by
  rw [List.filterMap_cons, tells]
  by_cases told : p
  · rw [if_pos told, if_pos told, List.reverse_cons]
  · rw [if_neg told, if_neg told, List.append_nil]

/-- A worker has accepted one more request once it accepts one. -/
theorem acceptances_accepted {c : CallerId} {earlier : List Event} :
    ((Event.accepted c v :: earlier).filterMap (Event.acceptance? w)).reverse =
      (earlier.filterMap (Event.acceptance? w)).reverse ++ if v = w then [c] else [] :=
  reverse_filterMap_cons rfl

/-- A worker has answered one more request once it answers one. -/
theorem history_answered {c : CallerId} {earlier : List Event} :
    ((Event.answered c v r :: earlier).filterMap (Event.answer? w)).reverse =
      (earlier.filterMap (Event.answer? w)).reverse ++ if v = w then [(c, r)] else [] :=
  reverse_filterMap_cons rfl

/-- Nothing more is accepted or answered. -/
theorem no_more {α : Type} (l : List α) (p : Prop) [Decidable p] :
    l = l ++ if p then [] else [] := by
  rw [ite_self, List.append_nil]

/-- What comes back to callers is not accepted. -/
theorem acceptance?_returns (time : Nat) (v : WorkerId) (es : List Envelope)
    (callers : Table Caller) (w : WorkerId) :
    ((returns time v es callers).map (·.event)).filterMap (Event.acceptance? w) = [] :=
  filterMap_returns time v es callers fun _ ↦ rfl

/-- A worker that answers an envelope has one more answer, and the identity that goes with it; the
others have neither. -/
theorem told_of_answer (found : s.workers.get? v = some worker) (inside : e ∈ worker.envelopes)
    (answers : Answers s worker e (r, z.identity))
    (workers : t.workers = s.workers.set v z)
    (events : t.events.filterMap (Event.answer? w) =
      if v = w then (e.caller, r) :: s.events.filterMap (Event.answer? w)
      else s.events.filterMap (Event.answer? w)) : Told s t w := by
  by_cases here : v = w
  · subst here
    have identity : t.identity? v = z.identity := by
      rw [identity?, workers, Table.get?_set_self found]
      rfl
    rw [if_pos rfl] at events
    refine .told found inside (identity.symm ▸ answers) ?_
    rw [history, events, List.reverse_cons]
    rfl
  · rw [if_neg here] at events
    refine .silent (by rw [history, events]; rfl) ?_
    rw [identity?, workers, Table.get?_set_ne here]
    rfl

/-- A change gives at most one answer. -/
theorem Change.told (change : Change s τ t) (w : WorkerId) : Told s t w := by
  have answered (c : CallerId) (v : WorkerId) (r : Result) (earlier : List Event) :
      (Event.answered c v r :: earlier).filterMap (Event.answer? w) =
        if v = w then (c, r) :: earlier.filterMap (Event.answer? w)
        else earlier.filterMap (Event.answer? w) := by
    rw [List.filterMap_cons, Event.answer?]
    by_cases here : v = w
    · rw [if_pos here, if_pos here]
    · rw [if_neg here, if_neg here]
  cases change with
  | leave found =>
    refine .silent ?_ (identity?_set found (by rfl) w)
    rw [history, events, List.map_append, List.filterMap_append, answer?_returns]
    rfl
  | die found => exact .silent rfl (identity?_set found (by rfl) w)
  | skip takes => exact .silent rfl (identity?_set takes.found (by rfl) w)
  | misroute takes waits foreign =>
    refine told_of_answer takes.found ?_ ?_ rfl (answered _ _ _ _)
    · exact takes.envelopes ▸ List.mem_cons_self
    · exact .misrouted foreign
  | connect accepts => exact .silent rfl (identity?_set accepts.found (by rfl) w)
  | lookup accepts => exact .silent rfl (identity?_set accepts.found (by rfl) w)
  | serve accepts serves =>
    refine told_of_answer accepts.found ?_ (.served serves) rfl (answered _ _ _ _)
    exact accepts.toTakes.envelopes ▸ List.mem_cons_self
  | finish found finishes =>
    refine told_of_answer found ?_ (.finished finishes) rfl (answered _ _ _ _)
    exact List.mem_append_left _ (Option.mem_toList.mpr finishes.hand)
  | again found => exact .silent rfl (identity?_set found (by rfl) w)
  | spawn =>
    refine .silent rfl ?_
    unfold identity?
    rw [Table.get?_push]
    by_cases new : w = s.workers.size
    · rw [if_pos new, new, Table.get?_size]
      rfl
    · rw [if_neg new]
  | push offers found => exact .silent rfl (identity?_set found (by rfl) w)
  | suspend offers found => exact .silent rfl (identity?_set found (by rfl) w)
  | occupy known suspended found => exact .silent rfl (identity?_set found (by rfl) w)
  | withdraw =>
    refine .silent rfl ?_
    unfold identity?
    rw [Table.get?_update]
    split
    next => cases s.workers.get? w <;> rfl
    next => rfl
  | _ => exact .silent rfl rfl

/-- What a worker has answered is recorded. -/
theorem mem_history : (c, r) ∈ s.history w ↔ .answered c w r ∈ s.events := by
  rw [history, List.mem_reverse, List.mem_filterMap]
  constructor
  · rintro ⟨event, recorded, tells⟩
    unfold Event.answer? at tells
    split at tells
    next d v q =>
      split at tells
      next same =>
        obtain ⟨rfl, rfl⟩ := Prod.mk.inj (Option.some.inj tells)
        exact same ▸ recorded
      next => exact absurd tells (by simp)
    next => exact absurd tells (by simp)
  · intro recorded
    exact ⟨_, recorded, if_pos rfl⟩

/-- What a worker has accepted is recorded. -/
theorem mem_acceptances : c ∈ s.acceptances w ↔ .accepted c w ∈ s.events := by
  rw [acceptances, List.mem_reverse, List.mem_filterMap]
  constructor
  · rintro ⟨event, recorded, tells⟩
    unfold Event.acceptance? at tells
    split at tells
    next d v =>
      split at tells
      next same => exact Option.some.inj tells ▸ same ▸ recorded
      next => exact absurd tells (by simp)
    next => exact absurd tells (by simp)
  · intro recorded
    exact ⟨_, recorded, if_pos rfl⟩

/-- An answer is what a worker answers to an envelope that it has. -/
theorem Change.answered (change : Change s τ t) (new : .answered c w r ∈ t.events) :
    .answered c w r ∈ s.events ∨
      ∃ worker e identity, s.workers.get? w = some worker ∧ e ∈ worker.envelopes ∧
        e.caller = c ∧ Answers s worker e (r, identity) := by
  rw [← mem_history] at new ⊢
  cases change.told w with
  | silent history => exact .inl (history ▸ new)
  | told found inside answers history =>
    rw [history, List.mem_append, List.mem_singleton] at new
    rcases new with old | last
    · exact .inl old
    · obtain ⟨rfl, rfl⟩ := Prod.mk.inj last
      exact .inr ⟨_, _, _, found, inside, rfl, answers⟩

/-- A use gives no answer. -/
theorem Use.silent (use : Use s t) (w : WorkerId) :
    t.history w = s.history w ∧ t.identity? w = s.identity? w := by
  constructor
  · unfold history
    rcases use.events_eq with same | ⟨v, same⟩ | same <;> rw [same] <;> rfl
  · unfold identity?
    cases use with
    | remove =>
      rw [Table.get?_update]
      split
      next => cases s.workers.get? w <;> rfl
      next => rfl
    | shutdown serving cancelled =>
      dsimp only
      rw [cancelled w]
      cases s.workers.get? w <;> rfl
    | _ => rfl

/-- A use has no request accepted. -/
theorem Use.acceptances (use : Use s t) (w : WorkerId) : t.acceptances w = s.acceptances w := by
  unfold State.acceptances
  rcases use.events_eq with same | ⟨v, same⟩ | same <;> rw [same] <;> rfl

/-- What a worker has answered stays answered. -/
theorem Later.history (later : s.Later t) (w : WorkerId) : s.history w <+: t.history w := by
  obtain ⟨new, grown⟩ := later.journal
  refine ⟨((new.map (·.event)).filterMap (Event.answer? w)).reverse, ?_⟩
  rw [State.history, State.history, events, events, ← grown, List.map_append,
    List.filterMap_append, List.reverse_append]

end State

end Signatory.Service
