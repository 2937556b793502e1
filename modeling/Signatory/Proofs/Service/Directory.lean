import Signatory.Proofs.Identity
import Signatory.Proofs.Service.Answers

/-!
# The directory and the workers agree

While a service is not shut down and no worker has died, the directory names exactly the workers
that have neither been told to leave nor left, each for its own key. Whatever happens, requests only
reach workers of their own key.
-/

/-- Whether a failure is one that a worker answers to a request for its own key. -/
def Signatory.Failure.isWorkers : Signatory.Failure → Bool
  | .notInitialized _ | .signing _ | .syncFailed _ _ | .ledger _ => true
  | _ => false

namespace Signatory.Service

/-- Whether a worker serves a key: it has neither been told to leave nor left. -/
structure Worker.ServesKey (y : Worker) (key : String) : Prop where
  key : y.key = key
  kept : y.cancelled = false
  live : y.activity.isOver = false

namespace State

variable {s t : State} {τ : Task} {w v : WorkerId} {worker : Worker} {key k : String}

/-- The worker that a list names for a key. -/
def lookUp (directory : List (String × WorkerId)) (key : String) : Option WorkerId :=
  (directory.find? (·.1 = key)).map (·.2)

theorem find?_eq (s : State) (key : String) : s.find? key = lookUp s.directory key := rfl

/-- What is filtered out for one key is not named for it, and the others stay. -/
theorem lookUp_filter (directory : List (String × WorkerId)) (key k : String) :
    lookUp (directory.filter (·.1 ≠ key)) k = if k = key then none else lookUp directory k := by
  induction directory with
  | nil => exact (ite_self _).symm
  | cons entry rest ih =>
    unfold lookUp at ih ⊢
    rw [List.filter_cons, List.find?_cons]
    by_cases mine : entry.1 = key
    · rw [if_neg (by simpa using mine), ih]
      by_cases asked : k = key
      · rw [if_pos asked, if_pos asked]
      · rw [if_neg asked, if_neg asked, decide_eq_false fun same ↦ asked (same.symm.trans mine)]
    · rw [if_pos (by simpa using mine), List.find?_cons]
      by_cases here : entry.1 = k
      · rw [decide_eq_true here, if_neg fun asked ↦ mine (here.trans asked)]
      · rw [decide_eq_false here]
        exact ih

/-- An entry that is put first is the one that is named. -/
theorem lookUp_cons (directory : List (String × WorkerId)) (key : String) (w : WorkerId)
    (k : String) :
    lookUp ((key, w) :: directory) k = if k = key then some w else lookUp directory k := by
  unfold lookUp
  rw [List.find?_cons]
  by_cases asked : k = key
  · rw [if_pos asked, decide_eq_true asked.symm]
    rfl
  · rw [if_neg asked, decide_eq_false (Ne.symm asked)]

/-- Taking a worker out of the directory takes out its own entry and no other. -/
theorem lookUp_without (s : State) (key : String) (w : WorkerId) (k : String) :
    lookUp (s.without key w) k =
      if k = key ∧ s.find? key = some w then none else s.find? k := by
  unfold without
  by_cases named : s.find? key = some w
  · rw [if_pos named, lookUp_filter, ← find?_eq]
    simp only [named, and_true]
  · rw [if_neg named, if_neg fun both ↦ named both.2, find?_eq]

/-- The entries of other workers stay when one is taken out. -/
theorem lookUp_without_ne (other : v ≠ w) (named : s.find? k = some v) :
    lookUp (s.without key w) k = some v := by
  rw [lookUp_without, if_neg, named]
  rintro ⟨rfl, mine⟩
  exact other (Option.some.inj (named.symm.trans mine))

/-- Whatever is named once a worker is taken out was named before. -/
theorem named_of_without (named : lookUp (s.without key w) k = some v) : s.find? k = some v := by
  rw [lookUp_without] at named
  split at named
  next => exact absurd named (by simp)
  next => exact named

/-- Requests only go to workers of their own key. -/
structure Filed (s : State) : Prop where
  named : ∀ {key w}, s.find? key = some w → ∃ y, s.workers.get? w = some y ∧ y.key = key
  indirect : ∀ {c x}, s.callers.get? c = some x → x.direct = none
  target : ∀ {c x w}, s.callers.get? c = some x → x.phase.host? = some w →
    ∃ y, s.workers.get? w = some y ∧ y.key = x.key
  matched : ∀ {w y e}, s.workers.get? w = some y → e ∈ y.envelopes → e.key = y.key
  straight : ∀ {c w k own}, .answered c w (.error (.violation (.misrouted k own))) ∉ s.events
  proper : ∀ {w}, .hooked w .aborted ∉ s.events
  stranded : ∀ {c x w}, s.callers.get? c = some x → x.phase = .replied w .lost →
    ∃ y, s.workers.get? w = some y ∧ y.key = x.key ∧ y.activity = .died

/-- A request that is served at once is refused for want of an identity, or because it cannot be
signed. -/
theorem Serves.refuses {request : Request} {done : Result × Option Identity} {fault : Failure}
    (serves : Serves worker request done) (refused : done.1 = .error fault) :
    fault.isWorkers = true := by
  cases serves with
  | sign d =>
    unfold handleSign at refused
    split at refused
    next =>
      obtain rfl := Except.error.inj refused
      rfl
    next i _ =>
      split at refused
      next e unsigned =>
        obtain ⟨_, rfl⟩ := i.signNext_error unsigned
        obtain rfl := Except.error.inj refused
        rfl
      next => exact absurd refused (by simp)
  | query q =>
    unfold handleQuery at refused
    split at refused
    next =>
      obtain rfl := Except.error.inj refused
      rfl
    next => exact absurd refused (by simp)
  | sync =>
    obtain rfl := Except.error.inj refused
    rfl

/-- A request that is finished later is refused for want of an identity, or because of a ledger. -/
theorem Finishes.refuses {e : Envelope} {done : Result × Option Identity} {fault : Failure}
    {ledgers : List (String × Ledger.Memory)} (finishes : Finishes s worker e done ledgers)
    (refused : done.1 = .error fault) : fault.isWorkers = true := by
  cases finishes with
  | refused =>
    obtain rfl := Except.error.inj refused
    rfl
  | connected => exact absurd refused (by simp [handleConnected])
  | unknown =>
    obtain rfl := Except.error.inj refused
    rfl
  | @synced attempt alarm i next r _ _ _ decided =>
    generalize (s.lookup i.ledger i.address).1 = answer at decided
    cases answer with
    | ok remote =>
      rw [handleAnswer_ok] at decided
      obtain rfl := Option.some.inj (Prod.mk.inj decided).1
      exact absurd refused (by simp)
    | error cause =>
      rw [handleAnswer_error] at decided
      obtain ⟨ended, -⟩ := Prod.mk.inj decided
      split at ended
      next => exact absurd ended (by simp)
      next =>
        obtain rfl := Option.some.inj ended
        obtain rfl := Except.error.inj refused
        rfl

/-- A request that is served at once is never answered with a violation. -/
theorem Serves.straight {request : Request} {done : Result × Option Identity}
    (serves : Serves worker request done) (fault : Violation) :
    done.1 ≠ .error (.violation fault) :=
  fun refused ↦ absurd (serves.refuses refused) Bool.false_ne_true

/-- A request that is finished later is never answered with a violation. -/
theorem Finishes.straight {e : Envelope} {done : Result × Option Identity}
    {ledgers : List (String × Ledger.Memory)} (finishes : Finishes s worker e done ledgers)
    (fault : Violation) : done.1 ≠ .error (.violation fault) :=
  fun refused ↦ absurd (finishes.refuses refused) Bool.false_ne_true

/-- A worker that gets the envelope of a caller has the caller's key. -/
theorem Filed.aims (h : s.Filed) {c : CallerId} {x : Caller} (known : s.callers.get? c = some x)
    (target : Offers s c x w ∨ x.phase = .suspended w) :
    ∃ y, s.workers.get? w = some y ∧ y.key = x.key := by
  rcases target with offers | suspended
  · rcases offers.target with direct | ⟨-, -, -, named⟩
    · exact absurd ((h.indirect known).symm.trans direct) (by simp)
    · exact h.named named
  · exact h.target known (by rw [suspended]; rfl)

/-- What is named after a change was named before, or has been created. -/
theorem Change.named (change : Change s τ t) (named : t.find? key = some w) :
    s.find? key = some w ∨
      w = s.workers.size ∧ ∃ y, t.workers.get? w = some y ∧ y.key = key := by
  have kept {k : String} {v : WorkerId} (entry : lookUp (s.without k v) key = some w) :
      s.find? key = some w := named_of_without entry
  cases change with
  | leave => exact .inl (kept named)
  | refuse => exact .inl (kept named)
  | turnAway => exact .inl (kept named)
  | lose => exact .inl (kept named)
  | @spawn c caller =>
    have named := named
    rw [find?_eq, lookUp_cons] at named
    split at named
    next same =>
      obtain rfl := Option.some.inj named
      exact .inr ⟨rfl, _, Table.get?_push_self, same.symm⟩
    next other =>
      rw [lookUp_filter, if_neg other] at named
      exact .inl named
  | _ => exact .inl named

/-- Every change sends requests only to workers of their own key. -/
theorem Change.filed (h : s.Filed) (change : Change s τ t) : t.Filed where
  named := by
    intro key w named
    rcases change.named named with old | ⟨-, new⟩
    · obtain ⟨y, found, own⟩ := h.named old
      obtain ⟨z, found', later⟩ := change.later.workers w y found
      exact ⟨z, found', later.key.trans own⟩
    · exact new
  indirect := by
    intro c x found
    rcases change.caller found with old | ⟨x', old, moves⟩
    · exact h.indirect old
    · have direct := h.indirect old
      cases moves <;> exact direct
  target := by
    intro c x w found waits
    have grown {y : Worker} {k : String} (there : s.workers.get? w = some y) (own : y.key = k) :
        ∃ z, t.workers.get? w = some z ∧ z.key = k := by
      obtain ⟨z, there', later⟩ := change.later.workers w y there
      exact ⟨z, there', later.key.trans own⟩
    have before : ∃ y, s.workers.get? w = some y ∧ y.key = x.key := by
      rcases change.caller found with old | ⟨x', old, moves⟩
      · exact h.target old waits
      · cases moves with
        | begin => exact absurd waits (by simp [Phase.host?])
        | retry => exact absurd waits (by simp [Phase.host?])
        | line offers =>
          obtain ⟨y, there, own⟩ := h.aims old (.inl offers)
          exact ⟨y, Option.some.inj waits ▸ there, own⟩
        | enqueue target =>
          obtain ⟨y, there, own⟩ := h.aims old target
          exact ⟨y, Option.some.inj waits ▸ there, own⟩
        | reply => exact absurd waits (by simp [Phase.host?])
        | finish => exact absurd waits (by simp [Phase.host?])
        | limit =>
          obtain ⟨y, there, own⟩ := h.target old waits
          exact ⟨y, there, own⟩
    obtain ⟨y, there, own⟩ := before
    exact grown there own
  matched := by
    intro w y e found inside
    have before : ∃ z, s.workers.get? w = some z ∧ e.key = z.key := by
      rcases change.envelope found inside with ⟨z, there, old⟩ | ⟨x, z, known, -, target, made⟩
      · exact ⟨z, there, h.matched there old⟩
      · obtain ⟨z, there, own⟩ := h.aims known target
        exact ⟨z, there, (congrArg Envelope.key made).trans own.symm⟩
    obtain ⟨z, there, own⟩ := before
    obtain ⟨y', there', later⟩ := change.later.workers w z there
    rw [found] at there'
    obtain rfl := Option.some.inj there'
    rw [own, later.key]
  straight := by
    intro c w k own answered
    rcases change.answered answered with old | ⟨worker, e, identity, found, inside, -, answers⟩
    · exact h.straight old
    · generalize outcome : ((.error (.violation (.misrouted k own)) : Result), identity) = done
        at answers
      cases answers with
      | misrouted foreign => exact foreign (h.matched found inside)
      | served serves => exact serves.straight (.misrouted k own) (congrArg Prod.fst outcome.symm)
      | finished finishes => exact finishes.straight (.misrouted k own) (congrArg Prod.fst outcome.symm)
  proper := by
    intro w hooked
    rcases change.hooked hooked with old | ⟨worker, found, cause⟩
    · exact h.proper old
    · cases cause with
      | misrouted foreign answered => exact h.straight (List.mem_map_of_mem answered)
  stranded := by
    intro c x w found lost
    have grown {y : Worker} (there : s.workers.get? w = some y) (own : y.key = x.key)
        (died : y.activity = .died) :
        ∃ z, t.workers.get? w = some z ∧ z.key = x.key ∧ z.activity = .died := by
      obtain ⟨z, there', later⟩ := change.later.workers w y there
      exact ⟨z, there', later.key.trans own, (later.past (by rw [died]; rfl)).trans died⟩
    rcases change.caller found with old | ⟨x', old, moves⟩
    · obtain ⟨y, there, own, died⟩ := h.stranded old lost
      exact grown there own died
    · cases moves with
      | reply waits replies =>
        obtain ⟨rfl, rfl⟩ := Phase.replied.inj lost
        obtain ⟨y, there, own⟩ := h.target old (congrArg Phase.host? waits)
        obtain ⟨z, there', later⟩ := change.later.workers _ y there
        cases replies with
        | lost found died =>
          obtain rfl := Option.some.inj (there'.symm.trans found)
          exact ⟨_, found, later.key.trans own, died⟩
      | limit =>
        obtain ⟨y, there, own, died⟩ := h.stranded old lost
        exact grown there own died
      | _ => exact absurd lost (by simp)

/-- What is named after a use was named before. -/
theorem Use.named (use : Use s t) (named : t.find? key = some w) : s.find? key = some w := by
  cases use with
  | remove =>
    have named := named
    rw [find?_eq, lookUp_filter] at named
    split at named
    next => exact absurd named (by simp)
    next => exact named
  | _ => exact named

/-- Every use sends requests only to workers of their own key. -/
theorem Use.filed (h : s.Filed) (use : Use s t) : t.Filed where
  named := by
    intro key w named
    obtain ⟨y, found, own⟩ := h.named (use.named named)
    obtain ⟨z, found', later⟩ := use.later.workers w y found
    exact ⟨z, found', later.key.trans own⟩
  indirect := by
    intro c x found
    rcases use.caller found with ⟨-, direct⟩ | ⟨x', old, -, -, same⟩
    · exact direct
    · exact same.trans (h.indirect old)
  target := by
    intro c x w found waits
    rcases use.caller found with ⟨fresh, -⟩ | ⟨x', old, phase, key, -⟩
    · rw [fresh] at waits
      exact absurd waits (by simp [Phase.host?])
    · obtain ⟨y, there, own⟩ := h.target old (phase ▸ waits)
      obtain ⟨z, there', later⟩ := use.later.workers w y there
      exact ⟨z, there', later.key.trans (own.trans key.symm)⟩
  matched := by
    intro w y e found inside
    obtain ⟨z, there, rfl | rfl⟩ := use.of_worker found
    · exact h.matched there inside
    · have own := h.matched (e := e) there inside
      exact own
  straight := by
    intro c w k own answered
    rcases use.events_eq with eq | ⟨v, eq⟩ | eq
    · exact h.straight (eq ▸ answered)
    · exact h.straight ((List.mem_cons.mp (eq ▸ answered)).resolve_left (by simp))
    · exact h.straight ((List.mem_cons.mp (eq ▸ answered)).resolve_left (by simp))
  proper := by
    intro w hooked
    rcases use.events_eq with eq | ⟨v, eq⟩ | eq
    · exact h.proper (eq ▸ hooked)
    · exact h.proper ((List.mem_cons.mp (eq ▸ hooked)).resolve_left (by simp))
    · exact h.proper ((List.mem_cons.mp (eq ▸ hooked)).resolve_left (by simp))
  stranded := by
    intro c x w found lost
    rcases use.caller found with ⟨fresh, -⟩ | ⟨x', old, phase, key, -⟩
    · exact absurd (fresh.symm.trans lost) (by simp)
    · obtain ⟨y, there, own, died⟩ := h.stranded old (phase ▸ lost)
      obtain ⟨z, there', later⟩ := use.later.workers w y there
      exact ⟨z, there', later.key.trans (own.trans key.symm),
        (later.past (by rw [died]; rfl)).trans died⟩

/-- A service that nobody has used sends no requests anywhere. -/
theorem filed_start (policy : Policy) (connector : Ledger.Connector) :
    (start policy connector).Filed :=
  ⟨fun named ↦ by simp [start, find?] at named, fun found ↦ by simp [start] at found,
    fun found ↦ by simp [start] at found, fun found ↦ by simp [start] at found,
    fun answered ↦ absurd answered List.not_mem_nil, fun hooked ↦ absurd hooked List.not_mem_nil,
    fun found ↦ by simp [start] at found⟩

/-- The directory names exactly the workers that serve their keys, and a worker that serves its key
is the last that was created for it. -/
structure Agrees (s : State) : Prop where
  serves : ∀ key w, s.find? key = some w ↔
    ∃ y, s.workers.get? w = some y ∧ y.ServesKey key
  last : ∀ {key v w y z}, s.workers.get? w = some y → y.ServesKey key →
    s.workers.get? v = some z → z.key = key → v ≤ w

/-- Whether a service is not shut down and no worker has died. -/
structure Sane (s : State) : Prop where
  serving : s.isShutDown = false
  alive : ∀ {w y}, s.workers.get? w = some y → y.activity ≠ .died

/-- A service that is sane has been so before. -/
theorem Later.sane (later : s.Later t) (sane : t.Sane) : s.Sane where
  serving := later.serving sane.serving
  alive := by
    intro w y found died
    obtain ⟨z, found', after⟩ := later.workers w y found
    exact sane.alive found' ((after.past (by rw [died]; rfl)).trans died)

/-- What tells whether a worker serves a key. -/
def standing (workers : Table Worker) (w : WorkerId) : Option (String × Bool × Bool) :=
  (workers.get? w).map fun y ↦ (y.key, y.cancelled, y.activity.isOver)

theorem standing_of_serves {y : Worker} (found : s.workers.get? w = some y)
    (serves : y.ServesKey key) : standing s.workers w = some (key, false, false) := by
  rw [standing, found, Option.map_some, serves.key, serves.kept, serves.live]

theorem serves_of_standing (h : standing s.workers w = some (key, false, false)) :
    ∃ y, s.workers.get? w = some y ∧ y.ServesKey key := by
  obtain ⟨y, found, same⟩ := Option.map_eq_some_iff.mp h
  obtain ⟨own, rest⟩ := Prod.mk.inj same
  obtain ⟨kept, live⟩ := Prod.mk.inj rest
  exact ⟨y, found, own, kept, live⟩

/-- A worker that keeps its key and goes on as before has the same standing. -/
theorem standing_set {y z : Worker} (found : s.workers.get? v = some y) (own : z.key = y.key)
    (kept : z.cancelled = y.cancelled) (live : z.activity.isOver = y.activity.isOver)
    (w : WorkerId) : standing (s.workers.set v z) w = standing s.workers w := by
  unfold standing
  rw [Table.get?_set found]
  split
  next same => rw [← same, found, Option.map_some, Option.map_some, own, kept, live]
  next => rfl

/-- Whatever a worker is, it has the same standing if it goes on as before. -/
theorem standing_update {f : Worker → Worker} {workers : Table Worker}
    (own : ∀ y, (f y).key = y.key) (kept : ∀ y, (f y).cancelled = y.cancelled)
    (live : ∀ y, (f y).activity = y.activity) (w : WorkerId) :
    standing (workers.update v f) w = standing workers w := by
  unfold standing
  rw [Table.get?_update]
  split
  next =>
    rw [Option.map_map]
    apply Option.map_congr
    intro y _
    simp only [Function.comp_apply, own, kept, live]
  next => rfl

/-- A directory agrees with workers that stand as before. -/
theorem Agrees.congr (h : s.Agrees) (directory : t.directory = s.directory)
    (same : ∀ w, standing t.workers w = standing s.workers w) : t.Agrees where
  serves := by
    intro key w
    rw [find?_eq, directory, ← find?_eq, h.serves]
    constructor
    · rintro ⟨y, found, serves⟩
      exact serves_of_standing ((same w).trans (standing_of_serves found serves))
    · rintro ⟨y, found, serves⟩
      exact serves_of_standing ((same w).symm.trans (standing_of_serves found serves))
  last := by
    intro key v w y z found serves there own
    obtain ⟨y', found', serves'⟩ :=
      serves_of_standing ((same w).symm.trans (standing_of_serves found serves))
    have stands := same v
    unfold standing at stands
    rw [there, Option.map_some] at stands
    obtain ⟨z', there', alike⟩ := Option.map_eq_some_iff.mp stands.symm
    exact h.last found' serves' there' ((Prod.mk.inj alike).1.trans own)

/-- A directory agrees once a worker and its entry are gone. -/
theorem Agrees.retire (h : s.Agrees) {y z : Worker} (found : s.workers.get? w = some y)
    (own : z.key = y.key) (past : ∀ key, ¬ z.ServesKey key)
    (workers : t.workers = s.workers.set w z)
    (entries : t.directory = s.without y.key w) : t.Agrees where
  serves := by
    intro key v
    rw [find?_eq, entries, workers, Table.get?_set found, lookUp_without]
    by_cases mine : w = v
    · subst mine
      rw [if_pos rfl]
      constructor
      · intro named
        split at named
        next => exact absurd named (by simp)
        next kept =>
          obtain ⟨y', found', serves⟩ := (h.serves key w).mp named
          rw [found] at found'
          obtain rfl := Option.some.inj found'
          refine absurd ⟨serves.key.symm, ?_⟩ kept
          rw [serves.key]
          exact named
      · rintro ⟨z', same, serves⟩
        exact absurd (Option.some.inj same ▸ serves) (past key)
    · rw [if_neg mine, ← h.serves]
      constructor
      · intro named
        split at named
        next => exact absurd named (by simp)
        next => exact named
      · intro named
        rw [if_neg, named]
        rintro ⟨rfl, gone⟩
        exact mine (Option.some.inj (gone.symm.trans named))
  last := by
    intro key v u x z' there serves other same
    rw [workers] at there other
    rcases Table.of_set found there with ⟨-, rfl⟩ | ⟨-, first⟩
    · exact absurd serves (past key)
    · rcases Table.of_set found other with ⟨rfl, rfl⟩ | ⟨-, second⟩
      · exact h.last first serves found (own.symm.trans same)
      · exact h.last first serves second same

/-- A directory agrees once a worker is created for a key for which there was none. -/
theorem Agrees.enter (h : s.Agrees) {y : Worker} (own : y.ServesKey key)
    (vacant : s.find? key = none) (workers : t.workers = s.workers.push y)
    (entries : t.directory = (key, s.workers.size) :: s.directory.filter (·.1 ≠ key)) :
    t.Agrees where
  serves := by
    intro k v
    rw [find?_eq, entries, workers, Table.get?_push, lookUp_cons, lookUp_filter, ← find?_eq]
    by_cases asked : k = key
    · subst asked
      rw [if_pos rfl]
      constructor
      · intro named
        obtain rfl := Option.some.inj named
        exact ⟨y, if_pos rfl, own⟩
      · rintro ⟨z, there, serves⟩
        split at there
        next same => rw [same]
        next =>
          have named := (h.serves k v).mpr ⟨z, there, serves⟩
          exact absurd (vacant.symm.trans named) (by simp)
    · rw [if_neg asked, if_neg asked, h.serves]
      constructor
      · rintro ⟨z, there, serves⟩
        exact ⟨z, (if_neg (Nat.ne_of_lt (Table.lt_size there))).trans there, serves⟩
      · rintro ⟨z, there, serves⟩
        split at there
        next =>
          obtain rfl := Option.some.inj there
          exact absurd (serves.key.symm.trans own.key) asked
        next => exact ⟨z, there, serves⟩
  last := by
    intro k v w x z there serves other same
    have bound := Table.lt_size other
    rw [workers, Table.size_push] at bound
    rw [workers] at there other
    rcases Table.of_push there with ⟨newest, -, -⟩ | first
    · exact Nat.le_of_lt_succ (newest ▸ bound)
    · rcases Table.of_push other with ⟨-, rfl, -⟩ | second
      · have named := (h.serves k w).mpr ⟨x, first, serves⟩
        rw [← same, own.key, vacant] at named
        exact absurd named (by simp)
      · exact h.last first serves second same

/-- A worker that is named has its mailbox open. -/
theorem Agrees.opened (h : s.Agrees) (owned : Owned s.workers s.callers)
    (named : s.find? key = some w) : s.isClosed w = false := by
  obtain ⟨y, found, serves⟩ := (h.serves key w).mp named
  unfold isClosed
  rw [found]
  exact (owned.shut found).trans serves.live

/-- Nobody takes a worker out of the directory whose mailbox is closed, because it is not there. -/
theorem Agrees.without_of_closed (h : s.Agrees) (owned : Owned s.workers s.callers)
    (shut : s.isClosed w = true) : s.without key w = s.directory := by
  unfold without
  apply if_neg
  intro named
  exact absurd ((h.opened owned named).symm.trans shut) (by simp)

/-- Every change of a service that stays sane leaves the directory and the workers in agreement. -/
theorem Change.agrees (h : s.Agrees) (owned : Owned s.workers s.callers) (filed : s.Filed)
    (change : Change s τ t) (sane : t.Sane) : t.Agrees := by
  have was := change.later.sane sane
  have same (w : WorkerId) : standing s.workers w = standing s.workers w := rfl
  cases change with
  | rest => exact h
  | @leave w worker reason found =>
    refine h.retire (z := { worker with
      mailbox := worker.mailbox.close, activity := .left reason }) found rfl ?_ rfl rfl
    exact fun key serves ↦ absurd serves.live (by simp [Activity.isOver])
  | die found => exact absurd rfl (sane.alive (Table.get?_set_self found))
  | skip takes => exact h.congr rfl (standing_set takes.found rfl rfl rfl)
  | misroute takes => exact h.congr rfl (standing_set takes.found rfl rfl rfl)
  | connect accepts =>
    exact h.congr rfl (standing_set accepts.found rfl rfl (by rw [accepts.idle]; rfl))
  | lookup accepts =>
    exact h.congr rfl (standing_set accepts.found rfl rfl (by rw [accepts.idle]; rfl))
  | serve accepts =>
    exact h.congr rfl (standing_set accepts.found rfl rfl (by rw [accepts.idle]))
  | finish found finishes =>
    exact h.congr rfl (standing_set found rfl rfl (by rw [finishes.live]; rfl))
  | again found syncing =>
    exact h.congr rfl (standing_set found rfl rfl (by rw [syncing]; rfl))
  | begin => exact h.congr rfl same
  | beginDirect => exact h.congr rfl same
  | @spawn c caller idle found seeking direct tries serving creates vacant =>
    have none : s.find? caller.key = none := by
      cases named : s.find? caller.key with
      | none => rfl
      | some w => exact absurd ((h.opened owned named).symm.trans (vacant w named)) (by simp)
    exact h.enter ⟨rfl, rfl, rfl⟩ none rfl rfl
  | push offers found => exact h.congr rfl (standing_set found rfl rfl rfl)
  | suspend offers found => exact h.congr rfl (standing_set found rfl rfl rfl)
  | refuse offers shut => exact h.congr (h.without_of_closed owned shut) same
  | refuseDirect => exact h.congr rfl same
  | occupy known suspended found => exact h.congr rfl (standing_set found rfl rfl rfl)
  | turnAway found suspended shut => exact h.congr (h.without_of_closed owned shut) same
  | retry => exact h.congr rfl same
  | limit => exact h.congr rfl same
  | conclude => exact h.congr rfl same
  | notFound => exact h.congr rfl same
  | lose found replied =>
    obtain ⟨y, there, -, died⟩ := filed.stranded found replied
    exact absurd died (was.alive there)
  | giveUp => exact h.congr rfl same
  | withdraw =>
    exact h.congr rfl (standing_update (fun _ ↦ rfl) (fun _ ↦ rfl) fun _ ↦ rfl)

/-- Every use of a service that stays sane leaves the directory and the workers in agreement. -/
theorem Use.agrees (h : s.Agrees) (use : Use s t) (sane : t.Sane) : t.Agrees := by
  have same (w : WorkerId) : standing s.workers w = standing s.workers w := rfl
  cases use with
  | rest => exact h
  | dispatch => exact h.congr rfl same
  | drop => exact h.congr rfl same
  | @remove key w named =>
    obtain ⟨y, found, serves⟩ := (h.serves key w).mp named
    refine h.retire (z := { y with cancelled := true }) found rfl ?_
      (Table.update_eq_set found _) ?_
    · exact fun key serves ↦ absurd serves.kept (by simp)
    · rw [without, serves.key, if_pos named]
  | notFound => exact h.congr rfl same
  | shutdown => exact absurd sane.serving (by simp)
  | ledger => exact h.congr rfl same
  | wait => exact h.congr rfl same

/-- The directory of a service that nobody has used is empty, and so are its workers. -/
theorem agrees_start (policy : Policy) (connector : Ledger.Connector) :
    (start policy connector).Agrees where
  serves := fun key w ↦ by simp [start, find?]
  last := fun found ↦ by simp [start] at found

/-- Requests go only to workers of their own key, and the directory and the workers agree while the
service is sane. -/
structure Ordered (s : State) : Prop where
  owned : Owned s.workers s.callers
  filed : s.Filed
  agrees : s.Sane → s.Agrees

/-- Requests have gone nowhere at the start. -/
theorem ordered_start (policy : Policy) (connector : Ledger.Connector) :
    (start policy connector).Ordered :=
  ⟨owned_start policy connector, filed_start policy connector,
    fun _ ↦ agrees_start policy connector⟩

/-- Every change leaves requests and the directory in order. -/
theorem Change.ordered (h : s.Ordered) (change : Change s τ t) : t.Ordered where
  owned := change.owned h.owned
  filed := change.filed h.filed
  agrees := fun sane ↦
    change.agrees (h.agrees (change.later.sane sane)) h.owned h.filed sane

/-- Every use leaves requests and the directory in order. -/
theorem Use.ordered (h : s.Ordered) (use : Use s t) : t.Ordered where
  owned := use.owned h.owned
  filed := use.filed h.filed
  agrees := fun sane ↦ use.agrees (h.agrees (use.later.sane sane)) sane

/-- The directory and the workers agree in every state that can come about. -/
theorem Reachable.ordered (h : s.Reachable) : s.Ordered := by
  have kept : s.bare.Ordered := by
    exact Reachable.invariant (P := Ordered) ordered_start (fun h change ↦ change.ordered h)
      (fun h use ↦ use.ordered h) h
  have filed := kept.filed
  refine ⟨kept.owned, ⟨filed.named, filed.indirect, filed.target, filed.matched, filed.straight,
    filed.proper, filed.stranded⟩, fun sane ↦ ?_⟩
  have agrees := kept.agrees ⟨sane.serving, sane.alive⟩
  exact ⟨agrees.serves, agrees.last⟩

/-- The directory and the workers agree, whatever happens and in whatever order. While a service is
not shut down and no worker has died, the directory names a worker for a key exactly if that worker
serves the key; no two workers serve one key; the mailbox of a worker that is named is open; and a
worker that serves its key is the last that was created for it. Envelopes only reach workers of
their own key, so none is answered as misrouted and no worker leaves because of one. And what takes
one worker out of the directory leaves the entries of the others. -/
theorem Reachable.directory_agrees (h : s.Reachable) :
    (s.isShutDown = false → (∀ w y, s.workers.get? w = some y → y.activity ≠ .died) →
      (∀ key w, s.find? key = some w ↔
        ∃ y, s.workers.get? w = some y ∧ y.ServesKey key) ∧
      (∀ key v w y z, s.workers.get? v = some y → y.ServesKey key →
        s.workers.get? w = some z → z.ServesKey key → v = w) ∧
      (∀ key w, s.find? key = some w → s.isClosed w = false) ∧
      (∀ key v w y z, s.workers.get? w = some y → y.ServesKey key →
        s.workers.get? v = some z → z.key = key → v ≤ w)) ∧
    (∀ w y e, s.workers.get? w = some y → e ∈ y.envelopes → e.key = y.key) ∧
    (∀ c w k own, .answered c w (.error (.violation (.misrouted k own))) ∉ s.events) ∧
    (∀ w, .hooked w .aborted ∉ s.events) ∧
    ∀ key k v w, v ≠ w → s.find? k = some v →
      (s.detach key w).2.find? k = some v ∧
      ∀ reason, (s.hook w key reason).find? k = some v := by
  have ordered := h.ordered
  have filed := ordered.filed
  refine ⟨fun serving alive ↦ ?_, fun w y e ↦ filed.matched, fun c w k own ↦ filed.straight,
    fun w ↦ filed.proper, fun key k v w other named ↦ ⟨?_, fun reason ↦ ?_⟩⟩
  · have agrees := ordered.agrees ⟨serving, alive _ _⟩
    refine ⟨agrees.serves, fun key v w y z there serves there' serves' ↦ ?_,
      fun key w ↦ agrees.opened ordered.owned, fun key v w y z ↦ agrees.last⟩
    have named := (agrees.serves key v).mpr ⟨y, there, serves⟩
    have named' := (agrees.serves key w).mpr ⟨z, there', serves'⟩
    exact Option.some.inj (named.symm.trans named')
  · change lookUp (s.detach key w).2.bare.directory k = some v
    rw [bare_detach]
    exact lookUp_without_ne (s := s) other named
  · change lookUp (s.hook w key reason).bare.directory k = some v
    rw [bare_hook]
    exact lookUp_without_ne (s := s) other named

/-- The worker that a first call brings about serves the key of that call. -/
theorem Reachable.directory_agrees_first :
    ∃ y, (runReady 3 ((start {} Ledger.Connector.direct).spawnCall {
        key := "treasury"
        request := .generate ⟨"memory://main", ⟨List.replicate 32 1, rfl⟩, .plain, 0⟩ }).2
      ).workers.get? 0 = some y ∧ y.ServesKey "treasury" := by
  have reachable := Reachable.directory_agrees ⟨{}, Ledger.Connector.direct,
    (Run.spawnCall _ "treasury" (.generate ⟨"memory://main", ⟨List.replicate 32 1, rfl⟩, .plain, 0⟩)).trans
      (Run.runReady 3 _)⟩
  refine ((reachable.1 rfl ?_).1 "treasury" 0).mp rfl
  intro w y found
  have bound : w < 1 := Table.lt_size found
  obtain rfl := Nat.lt_one_iff.mp bound
  obtain rfl := Option.some.inj found
  exact fun died ↦ nomatch died

/-- A worker does one thing in one step. -/
theorem Reachable.change_of_worker (h : s.Reachable) (running : s.running = some (.worker w))
    (taken : s.step = some t) : Change s.bare (.worker w) t.bare := by
  unfold State.step at taken
  rw [running] at taken
  obtain rfl := Option.some.inj taken
  cases found : s.workers.get? w with
  | none =>
    have same : s.stepWorker w = s.rest := by
      unfold stepWorker
      rw [found]
    rw [same]
    exact .rest
  | some y =>
    rcases stepWorker_works running found with stir | ⟨⟨e, inside, foreign⟩, -⟩
    · exact stir.change
    · exact absurd (h.ordered.filed.matched found inside) foreign

end State

end Signatory.Service
