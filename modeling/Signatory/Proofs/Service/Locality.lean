import Signatory.Proofs.Service.Removal

/-!
# Locality

A task belongs to the key of its worker or its caller. What it does concerns that key alone: for
every other key the directory names the same worker, and the workers and the callers are as they
were.
-/

namespace Signatory.Service

namespace Table

variable {α : Type} {f : α → String} {t u : Table α} {i : Nat} {a b : α} {key : String}

/-- Two tables have the same entries of all keys but one. -/
def AgreeOff (f : α → String) (key : String) (t u : Table α) : Prop :=
  ∀ i a, f a ≠ key → (u.get? i = some a ↔ t.get? i = some a)

/-- Changing an entry of a key leaves those of other keys alone. -/
theorem agreeOff_set (found : t.get? i = some b) (was : f b = key) (is : f a = key) :
    AgreeOff f key t (t.set i a) := by
  intro j c other
  rw [get?_set found]
  split
  next here =>
    subst here
    rw [found]
    constructor
    · intro same
      exact absurd (Option.some.inj same ▸ is) other
    · intro same
      exact absurd (Option.some.inj same ▸ was) other
  next => rfl

/-- Adding an entry of a key leaves those of other keys alone. -/
theorem agreeOff_push (is : f a = key) : AgreeOff f key t (t.push a) := by
  intro j c other
  rw [get?_push]
  split
  next here =>
    subst here
    constructor
    · intro same
      exact absurd (Option.some.inj same ▸ is) other
    · intro found
      exact absurd (get?_size.symm.trans found) (by simp)
  next => rfl

end Table

namespace State

variable {s t u : State} {τ : Task} {w : WorkerId} {c : CallerId} {x : Caller} {key : String}

/-- Whether a task is the worker or a caller of a key. -/
def Belongs (s : State) (key : String) : Task → Prop
  | .worker w => ∃ y, s.workers.get? w = some y ∧ y.key = key
  | .caller c => ∃ x, s.callers.get? c = some x ∧ x.key = key

/-- Nothing that belongs to another key differs between two states. -/
structure Apart (key : String) (s t : State) : Prop where
  find? : ∀ {k}, k ≠ key → t.find? k = s.find? k
  workers : Table.AgreeOff Worker.key key s.workers t.workers
  callers : Table.AgreeOff Caller.key key s.callers t.callers

namespace Apart

/-- Nothing differs between a state and itself. -/
theorem refl (key : String) (s : State) : Apart key s s :=
  ⟨fun _ ↦ rfl, fun _ _ _ ↦ .rfl, fun _ _ _ ↦ .rfl⟩

/-- What has not been touched in one part of a run and in the next has not been touched. -/
theorem trans (first : Apart key s t) (second : Apart key t u) : Apart key s u where
  find? := fun other ↦ (second.find? other).trans (first.find? other)
  workers := fun w y other ↦ (second.workers w y other).trans (first.workers w y other)
  callers := fun c x other ↦ (second.callers c x other).trans (first.callers c x other)

/-- Schedules do not matter for what belongs to a key. -/
theorem of_bare (h : Apart key s.bare t.bare) : Apart key s t :=
  ⟨h.find?, h.workers, h.callers⟩

end Apart

/-- Taking a worker of a key out of the directory leaves the other keys alone. -/
theorem find?_of_without {k : String} (directory : t.directory = s.without key w)
    (other : k ≠ key) : t.find? k = s.find? k := by
  rw [find?_eq, directory, lookUp_without, if_neg fun same ↦ other same.1]

/-- Replying to the callers of a worker leaves those of other keys alone. -/
theorem get?_reply_iff (filed : s.Filed) {y : Worker} (found : s.workers.get? w = some y)
    (own : y.key = key) (r : Reply) (other : x.key ≠ key) :
    (s.callers.get? c).map (Caller.reply w r) = some x ↔ s.callers.get? c = some x := by
  -- Whoever awaits the worker has its key.
  have untouched {old : Caller} (known : s.callers.get? c = some old) (foreign : old.key ≠ key) :
      old.reply w r = old := by
    refine if_neg fun waits ↦ foreign ?_
    obtain ⟨z, found', same⟩ := filed.target known (by rw [Caller.awaits_iff.mp waits]; rfl)
    obtain rfl := Option.some.inj (found.symm.trans found')
    exact same.symm.trans own
  constructor
  · intro here
    obtain ⟨old, known, replied⟩ := Option.map_eq_some_iff.mp here
    have same : old.key = x.key := by
      rw [← replied]
      unfold Caller.reply
      split <;> rfl
    rw [untouched known (same ▸ other)] at replied
    exact replied ▸ known
  · intro known
    rw [known, Option.map_some, untouched known other]

/-- Replying to some callers of a worker leaves those of other keys alone. -/
theorem agreeOff_replyAll (filed : s.Filed) {y : Worker} (found : s.workers.get? w = some y)
    (own : y.key = key) (r : Reply) (es : List Envelope) :
    s.callers.AgreeOff Caller.key key (replyAll w r es s.callers) := by
  intro c x other
  rw [get?_replyAll]
  split
  next => exact get?_reply_iff filed found own r other
  next => rfl

/-- Answering a caller of a worker leaves those of other keys alone. -/
theorem agreeOff_answer {d : CallerId} (filed : s.Filed) {y : Worker}
    (found : s.workers.get? w = some y) (own : y.key = key) (r : Reply) :
    s.callers.AgreeOff Caller.key key (s.callers.update d (Caller.reply w r)) := by
  intro c x other
  rw [Table.get?_update]
  split
  next => exact get?_reply_iff filed found own r other
  next => rfl

/-- What a worker does concerns its key alone. -/
theorem Change.apart_of_worker (filed : s.Filed) (change : Change s (.worker w) t) {y : Worker}
    (found : s.workers.get? w = some y) (own : y.key = key) : Apart key s t := by
  have same {β : Type} {f : β → String} {table : Table β} : table.AgreeOff f key table :=
    fun _ _ _ ↦ .rfl
  have workers {y' z : Worker} (found' : s.workers.get? w = some y') (is : z.key = y'.key) :
      s.workers.AgreeOff Worker.key key (s.workers.set w z) := by
    obtain rfl := Option.some.inj (found.symm.trans found')
    exact Table.agreeOff_set found own (is.trans own)
  have answers {d : CallerId} {r : Reply} :
      s.callers.AgreeOff Caller.key key (s.callers.update d (Caller.reply w r)) :=
    agreeOff_answer filed found own r
  cases change with
  | rest => exact .refl key s
  | leave found' =>
    refine ⟨fun other ↦ ?_, workers found' rfl, agreeOff_replyAll filed found own _ _⟩
    obtain rfl := Option.some.inj (found.symm.trans found')
    exact find?_of_without rfl (own ▸ other)
  | die found' =>
    exact ⟨fun _ ↦ rfl, workers found' rfl, agreeOff_replyAll filed found own _ _⟩
  | skip takes => exact ⟨fun _ ↦ rfl, workers takes.found rfl, same⟩
  | misroute takes => exact ⟨fun _ ↦ rfl, workers takes.found rfl, answers⟩
  | connect accepts => exact ⟨fun _ ↦ rfl, workers accepts.found rfl, same⟩
  | lookup accepts => exact ⟨fun _ ↦ rfl, workers accepts.found rfl, same⟩
  | serve accepts => exact ⟨fun _ ↦ rfl, workers accepts.found rfl, answers⟩
  | finish found' => exact ⟨fun _ ↦ rfl, workers found' rfl, answers⟩
  | again found' => exact ⟨fun _ ↦ rfl, workers found' rfl, same⟩

/-- What a caller does concerns its key alone. -/
theorem Change.apart_of_caller (filed : s.Filed) (change : Change s (.caller c) t)
    (known : s.callers.get? c = some x) (own : x.key = key) : Apart key s t := by
  have same {β : Type} {f : β → String} {table : Table β} : table.AgreeOff f key table :=
    fun _ _ _ ↦ .rfl
  have self {x' : Caller} (known' : s.callers.get? c = some x') : x'.key = key :=
    (congrArg Caller.key (Option.some.inj (known'.symm.trans known))).trans own
  have callers {x' next : Caller} (known' : s.callers.get? c = some x') (is : next.key = x'.key) :
      s.callers.AgreeOff Caller.key key (s.callers.set c next) :=
    Table.agreeOff_set known' (self known') (is.trans (self known'))
  -- The worker that a caller deals with has its key.
  have workers {x' : Caller} {v : WorkerId} {y z : Worker} (known' : s.callers.get? c = some x')
      (target : Offers s c x' v ∨ x'.phase = .suspended v) (found : s.workers.get? v = some y)
      (is : z.key = y.key) : s.workers.AgreeOff Worker.key key (s.workers.set v z) := by
    obtain ⟨y', found', same⟩ := filed.aims known' target
    obtain rfl := Option.some.inj (found.symm.trans found')
    have was : y.key = key := same.trans (self known')
    exact Table.agreeOff_set found was (is.trans was)
  have find? {x' : Caller} {v : WorkerId} {k : String} (known' : s.callers.get? c = some x')
      (other : k ≠ key) : lookUp (s.without x'.key v) k = s.find? k := by
    rw [lookUp_without, if_neg fun same ↦ other (same.1.trans (self known'))]
  cases change with
  | rest => exact .refl key s
  | begin known' => exact ⟨fun _ ↦ rfl, same, callers known' rfl⟩
  | beginDirect known' => exact ⟨fun _ ↦ rfl, same, callers known' rfl⟩
  | @spawn _ x' idle known' =>
    refine ⟨fun {k} other ↦ ?_, Table.agreeOff_push (self known'), same⟩
    have other : k ≠ x'.key := fun same ↦ other (same.trans (self known'))
    rw [find?_eq, lookUp_cons, if_neg other, lookUp_filter, if_neg other, find?_eq]
  | push offers found =>
    exact ⟨fun _ ↦ rfl, workers offers.found (.inl offers) found rfl, callers offers.found rfl⟩
  | suspend offers found =>
    exact ⟨fun _ ↦ rfl, workers offers.found (.inl offers) found rfl, callers offers.found rfl⟩
  | refuse offers => exact ⟨find? offers.found, same, callers offers.found rfl⟩
  | refuseDirect offers => exact ⟨fun _ ↦ rfl, same, callers offers.found rfl⟩
  | occupy known' suspended found =>
    exact ⟨fun _ ↦ rfl, workers known' (.inr suspended) found rfl, callers known' rfl⟩
  | turnAway known' => exact ⟨find? known', same, callers known' rfl⟩
  | retry known' => exact ⟨fun _ ↦ rfl, same, callers known' rfl⟩
  | limit known' => exact ⟨fun _ ↦ rfl, same, callers known' rfl⟩
  | conclude known' => exact ⟨fun _ ↦ rfl, same, callers known' rfl⟩
  | notFound known' => exact ⟨fun _ ↦ rfl, same, callers known' rfl⟩
  | lose known' => exact ⟨find? known', same, callers known' rfl⟩
  | giveUp known' => exact ⟨fun _ ↦ rfl, same, callers known' rfl⟩
  | withdraw known' suspended =>
    obtain ⟨y, found, -⟩ := filed.aims known' (.inr suspended)
    refine ⟨fun _ ↦ rfl, ?_, callers known' rfl⟩
    rw [Table.update_eq_set found]
    exact workers known' (.inr suspended) found rfl

/-- What a task does concerns its key alone. -/
theorem Change.apart_of_belongs (filed : s.Filed) (change : Change s τ t)
    (belongs : s.Belongs key τ) : Apart key s t := by
  cases τ with
  | worker w =>
    obtain ⟨y, found, own⟩ := belongs
    exact change.apart_of_worker filed found own
  | caller c =>
    obtain ⟨x, known, own⟩ := belongs
    exact change.apart_of_caller filed known own

/-- A task belongs to its key for good. -/
theorem Later.belongs (later : s.Later t) (belongs : s.Belongs key τ) : t.Belongs key τ := by
  cases τ with
  | worker w =>
    obtain ⟨y, found, own⟩ := belongs
    obtain ⟨z, there, since⟩ := later.workers w y found
    exact ⟨z, there, since.key.trans own⟩
  | caller c =>
    obtain ⟨x, known, own⟩ := belongs
    obtain ⟨now, here, since⟩ := later.callers c x known
    exact ⟨now, here, since.key.trans own⟩

/-- What a task does in one step concerns its key alone. -/
theorem Reachable.apart (h : s.Reachable) (running : s.running = some τ)
    (belongs : s.Belongs key τ) (taken : s.step = some t) : Apart key s t := by
  -- A step may be more than one change, so all that one of them needs is carried along.
  have kept {u : State} (changes : Changes τ s.bare u) :
      u.Filed ∧ u.Belongs key τ ∧ Apart key s.bare u := by
    induction changes with
    | refl => exact ⟨h.bare.ordered.filed, belongs, .refl key _⟩
    | tail _ change ih =>
      obtain ⟨filed, belongs, apart⟩ := ih
      exact ⟨change.filed filed, change.later.belongs belongs,
        apart.trans (change.apart_of_belongs filed belongs)⟩
  exact (kept (step_stirs running taken).changes).2.2.of_bare

end State

end Signatory.Service
