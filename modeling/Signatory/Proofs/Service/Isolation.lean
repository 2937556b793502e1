import Signatory.Proofs.Service.Lockstep

/-!
# Isolation
-/

namespace Signatory.Service

namespace State

variable {s t u : State} {τ : Task} {w : WorkerId} {c : CallerId} {x : Caller} {key name : String}

/-- The ledgers that identities are on, with the keys of their workers. -/
def lodgings (s : State) : List (String × Ledger.Place) :=
  s.workers.toList.filterMap fun (_, y) ↦ y.identity.map fun i ↦ (y.key, i.ledger)

/-- What is done for a key: a task of the key takes a step, a call begins, a caller is dropped, or
the worker of the key is removed. -/
inductive DoneFor (key : String) (s : State) : State → Prop
  | step {τ : Task} {t : State} (running : s.running = some τ) (belongs : s.Belongs key τ)
    (taken : s.step = some t) : DoneFor key s t
  | call (request : Request) : DoneFor key s (s.addCaller { key, request }).2
  | drop {c : CallerId} (belongs : s.Belongs key (.caller c)) : DoneFor key s (s.dropCaller c)
  | remove : DoneFor key s (s.remove key).2

/-- What all keys have in common is the same in two states. -/
structure Common (s t : State) : Prop where
  policy : t.policy = s.policy
  connector : t.connector = s.connector
  now : t.now = s.now
  shut : t.isShutDown = s.isShutDown

/-- Nothing that any key but one deals with differs between two states, and whoever is ready in the
first is ready in the second. -/
structure Undisturbed (key : String) (s t : State) : Prop extends Apart key s t, Common s t where
  ready : s.ready <+: t.ready
  ledgers : ∀ {name}, (key, .memory name) ∉ s.lodgings → t.ledger name = s.ledger name

/-- A key lodges at a ledger if a worker of the key has an identity there. -/
theorem mem_lodgings {place : Ledger.Place} :
    (key, place) ∈ s.lodgings ↔ ∃ w y i, s.workers.get? w = some y ∧ y.identity = some i ∧
      y.key = key ∧ i.ledger = place := by
  unfold lodgings
  rw [List.mem_filterMap]
  constructor
  · rintro ⟨⟨w, y⟩, listed, lodges⟩
    obtain ⟨i, known, same⟩ := Option.map_eq_some_iff.mp lodges
    exact ⟨w, y, i, mem_toList.mp listed, known, congrArg Prod.fst same, congrArg Prod.snd same⟩
  · rintro ⟨w, y, i, found, known, own, place⟩
    refine ⟨(w, y), mem_toList.mpr found, ?_⟩
    dsimp only
    rw [known, Option.map_some, own, place]

section Locality

/-- An answer to a lookup comes from the ledger of an identity, and no other ledger is concerned. -/
theorem ledger_lookup (s : State) (place : Ledger.Place) (a : Address)
    (elsewhere : place ≠ .memory name) : (s.lookup place a).2.ledger name = s.ledger name := by
  cases place with
  | memory other =>
    refine (ledger_setLedger s other name _).trans (if_neg fun same ↦ elsewhere ?_)
    rw [same]
  | remote url => rfl

/-- Making sure that there is a ledger does not change any. -/
theorem ledger_ensureLedger (s : State) (place : Ledger.Place) (name : String) :
    (s.ensureLedger place).ledger name = s.ledger name := by
  cases place with
  | memory other =>
    refine (ledger_setLedger s other name _).trans ?_
    split
    next same => rw [same]
    next => rfl
  | remote url => rfl

/-- What a worker does concerns the ledger of its identity alone. -/
theorem Change.ledger_of_worker (change : Change s (.worker w) t) {y : Worker}
    (found : s.workers.get? w = some y)
    (elsewhere : ∀ i, y.identity = some i → i.ledger ≠ .memory name) :
    t.ledger name = s.ledger name := by
  cases change with
  | finish found' finishes =>
    obtain rfl := Option.some.inj (found.symm.trans found')
    cases finishes with
    | refused => rfl
    | connected => exact ledger_ensureLedger s _ name
    | unknown => rfl
    | synced _ _ known => exact ledger_lookup s _ _ (elsewhere _ known)
  | again found' _ _ known =>
    obtain rfl := Option.some.inj (found.symm.trans found')
    exact ledger_lookup s _ _ (elsewhere _ known)
  | _ => rfl

/-- What a caller does concerns no ledger. -/
theorem Changes.ledger_of_caller (changes : Changes (.caller c) s t) (name : String) :
    t.ledger name = s.ledger name := by
  induction changes with
  | refl => rfl
  | tail _ change ih =>
    refine Eq.trans ?_ ih
    cases change <;> rfl

/-- What a task does in one step concerns no ledger but that of an identity of its key. -/
theorem Reachable.ledger_of_step (h : s.Reachable) (running : s.running = some τ)
    (belongs : s.Belongs key τ) (taken : s.step = some t)
    (elsewhere : (key, .memory name) ∉ s.lodgings) :
    t.ledger name = s.ledger name := by
  cases τ with
  | worker w =>
    obtain ⟨y, found, own⟩ := belongs
    exact (h.change_of_worker running taken).ledger_of_worker found fun i known place ↦
      elsewhere (mem_lodgings.mpr ⟨w, y, i, found, known, own, place⟩)
  | caller c => exact (step_stirs running taken).changes.ledger_of_caller name

/-- Whoever is ready stays so while a task takes a step. -/
theorem Stirs.ready (stirs : Stirs τ s t) : s.ready <+: t.ready := by
  induction stirs with
  | refl => exact List.prefix_rfl
  | tail _ stir ih =>
    obtain ⟨woken, ready, -⟩ := stir.wakes.ready
    exact ih.trans ⟨woken, ready.symm⟩

/-- What a task does leaves alone what all keys have in common. -/
theorem Changes.common (changes : Changes τ s t) : Common s t := by
  induction changes with
  | refl => exact ⟨rfl, rfl, rfl, rfl⟩
  | @tail u t _ change ih =>
    have same : Common u t := by cases change <;> exact ⟨rfl, rfl, rfl, rfl⟩
    exact ⟨same.policy.trans ih.policy, same.connector.trans ih.connector, same.now.trans ih.now,
      same.shut.trans ih.shut⟩

/-- Whoever is ready stays so when a task is woken. -/
theorem prefix_wake (s : State) (τ : Task) : s.ready <+: (s.wake τ).ready := by
  unfold State.wake
  split
  next => exact List.prefix_rfl
  next =>
    split
    next => exact List.prefix_rfl
    next => exact List.prefix_append _ _

theorem prefix_wakeWorker (s : State) (w : WorkerId) : s.ready <+: (s.wakeWorker w).ready := by
  unfold State.wakeWorker
  split
  next =>
    split
    next => exact prefix_wake s _
    next => exact List.prefix_rfl
  next => exact List.prefix_rfl

/-- Of the schedule it only matters who is ready. -/
theorem Undisturbed.congr (h : Undisturbed key s u) (same : t.bare = u.bare)
    (ready : s.ready <+: t.ready) : Undisturbed key s t := by
  have apart : Apart key s.bare u.bare := ⟨h.find?, h.workers, h.callers⟩
  have common : Common s.bare u.bare := ⟨h.policy, h.connector, h.now, h.shut⟩
  have ledgers {name : String} (elsewhere : (key, .memory name) ∉ s.lodgings) :
      u.bare.ledger name = s.ledger name := h.ledgers elsewhere
  rw [← same] at apart common
  refine ⟨apart.of_bare, ⟨common.policy, common.connector, common.now, common.shut⟩, ready,
    fun elsewhere ↦ ?_⟩
  have kept := ledgers elsewhere
  rw [← same] at kept
  exact kept

/-- Where nothing happens nobody is disturbed. -/
theorem Undisturbed.refl (key : String) (s : State) : Undisturbed key s s :=
  ⟨.refl key s, ⟨rfl, rfl, rfl, rfl⟩, List.prefix_rfl, fun _ ↦ rfl⟩

/-- Dropping a caller disturbs no other key. -/
theorem undisturbed_drop (belongs : s.Belongs key (.caller c)) :
    Undisturbed key s (s.dropCaller c) := by
  obtain ⟨x, known, own⟩ := belongs
  unfold State.dropCaller
  split
  next => exact .refl key s
  next =>
    have dropped : Undisturbed key s
        (s.updateCaller c fun caller ↦ { caller with dropped := true }) := by
      refine ⟨⟨fun _ ↦ rfl, fun _ _ _ ↦ .rfl, ?_⟩, ⟨rfl, rfl, rfl, rfl⟩, List.prefix_rfl,
        fun _ ↦ rfl⟩
      rw [State.updateCaller, Table.update_eq_set known]
      exact Table.agreeOff_set known own own
    exact dropped.congr (bare_wake _ _)
      (prefix_wake (s.updateCaller c fun caller ↦ { caller with dropped := true }) _)

/-- Whoever is ready stays so when a worker is removed. -/
theorem prefix_remove (named : s.find? key = some w) : s.ready <+: (s.remove key).2.ready := by
  have told : (s.remove key).2 = (((s.detach key w).2.cancel w).log (.removed w)).count
      fun n ↦ { n with removed := n.removed + 1 } := by
    unfold State.remove
    rw [named]
  have detached : (s.detach key w).2.ready = s.ready := by
    unfold State.detach
    split <;> rfl
  have ready (u : State) (f : Stats → Stats) : ((u.log (.removed w)).count f).ready = u.ready :=
    rfl
  rw [told, ready, State.cancel]
  generalize marked : (s.detach key w).2.updateWorker w _ = u
  have same : u.ready = s.ready := marked ▸ detached
  rw [← same]
  exact prefix_wakeWorker u w

/-- Removing the worker of a key disturbs no other key. -/
theorem Reachable.undisturbed_remove (h : s.Reachable) (key : String) :
    Undisturbed key s (s.remove key).2 := by
  cases named : s.find? key with
  | none =>
    have counted : (s.remove key).2 = s.count fun n ↦ { n with notFound := n.notFound + 1 } := by
      unfold State.remove
      rw [named]
    rw [counted]
    exact { Undisturbed.refl key s with }
  | some w =>
    obtain ⟨y, found, own⟩ := h.bare.ordered.filed.named named
    have found : s.workers.get? w = some y := found
    have removed : Undisturbed key s
        { s with
          directory := s.directory.filter (·.1 ≠ key)
          stats := { s.stats with removed := s.stats.removed + 1 }
          workers := s.workers.update w fun y ↦ { y with cancelled := true }
          journal := ⟨s.now, .removed w⟩ :: s.journal } := by
      refine ⟨⟨fun other ↦ ?_, ?_, fun _ _ _ ↦ .rfl⟩, ⟨rfl, rfl, rfl, rfl⟩, List.prefix_rfl,
        fun _ ↦ rfl⟩
      · rw [find?_eq, lookUp_filter, if_neg other, find?_eq]
      · rw [Table.update_eq_set found]
        exact Table.agreeOff_set found own own
    exact removed.congr (bare_remove named) (prefix_remove named)

/-- What is done for one key disturbs no other. -/
theorem Reachable.undisturbed (h : s.Reachable) (done : DoneFor key s t) : Undisturbed key s t := by
  cases done with
  | step running belongs taken =>
    have stirs := step_stirs running taken
    have common := stirs.changes.common
    exact ⟨h.apart running belongs taken,
      ⟨common.policy, common.connector, common.now, common.shut⟩, stirs.ready,
      h.ledger_of_step running belongs taken⟩
  | call request =>
    exact ⟨⟨fun _ ↦ rfl, fun _ _ _ ↦ .rfl, Table.agreeOff_push rfl⟩, ⟨rfl, rfl, rfl, rfl⟩,
      List.prefix_rfl, fun _ ↦ rfl⟩
  | drop belongs => exact undisturbed_drop belongs
  | remove => exact h.undisturbed_remove key

/-- A deed for a key disturbs no other. -/
theorem Reachable.undisturbed_perform (h : s.Reachable) {d : Deed} (concerns : d.key? = some key) :
    Undisturbed key s (s.perform d) := by
  -- Who has the turn does not matter to the other keys.
  have called {τ : Task} (belongs : s.Belongs key τ) : Undisturbed key s (s.turn τ) := by
    have reached : Reachable { s with running := some τ } := h.run (.single (.schedule rfl))
    have done : DoneFor key { s with running := some τ } (s.turn τ) := by
      cases τ with
      | worker w => exact .step rfl belongs rfl
      | caller c => exact .step rfl belongs rfl
    exact { reached.undisturbed done with }
  have caller {n : Nat} {c : CallerId} (listed : (s.callersOf key)[n]? = some c) :
      s.Belongs key (.caller c) := by
    obtain ⟨x, known, own⟩ := Table.mem_numbers.mp (List.mem_of_getElem? listed)
    exact ⟨x, known, of_decide_eq_true own⟩
  have worker {n : Nat} {w : WorkerId} (listed : (s.workersOf key)[n]? = some w) :
      s.Belongs key (.worker w) := by
    obtain ⟨y, found, own⟩ := Table.mem_numbers.mp (List.mem_of_getElem? listed)
    exact ⟨y, found, of_decide_eq_true own⟩
  cases d with
  | call _ request =>
    obtain rfl := Option.some.inj concerns
    exact h.undisturbed (.call request)
  | drop _ n =>
    obtain rfl := Option.some.inj concerns
    unfold State.perform
    dsimp only
    split
    next c listed => exact h.undisturbed (.drop (caller listed))
    next => exact .refl _ s
  | remove _ =>
    obtain rfl := Option.some.inj concerns
    exact h.undisturbed .remove
  | caller _ n =>
    obtain rfl := Option.some.inj concerns
    unfold State.perform
    dsimp only
    split
    next c listed => exact called (caller listed)
    next => exact .refl _ s
  | worker _ n =>
    obtain rfl := Option.some.inj concerns
    unfold State.perform
    dsimp only
    split
    next w listed => exact called (worker listed)
    next => exact .refl _ s
  | ledger name use => exact absurd concerns (by simp [Deed.key?])
  | clock time => exact absurd concerns (by simp [Deed.key?])

end Locality

end State

end Signatory.Service
