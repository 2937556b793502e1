import Signatory.Proofs.Service.Locality

/-!
# Deeds

A run told deed by deed: which call is made, which caller or worker has a turn, what is done from
outside, and what the clock reads. The callers and the workers of a key are counted in the order in
which they come about, so that the deeds for one key mean the same whatever is done for others.
-/

namespace Signatory.Service

/-- The numbers of the entries with a property, in order. -/
def Table.numbers {α : Type} (t : Table α) (p : α → Bool) : List Nat :=
  (List.range t.size).filter fun i ↦ (t.get? i).any p

namespace State

/-- One thing that is done in a run. -/
inductive Deed
  /-- A call for a key begins. -/
  | call (key : String) (request : Request)
  /-- A caller of a key is dropped. -/
  | drop (key : String) (n : Nat)
  /-- The worker of a key is removed. -/
  | remove (key : String)
  /-- A caller of a key has a turn. -/
  | caller (key : String) (n : Nat)
  /-- A worker of a key has a turn. -/
  | worker (key : String) (n : Nat)
  /-- Somebody else uses a ledger. -/
  | ledger (name : String) (use : Ledger.Memory → Ledger.Memory)
  /-- Time passes until the clock reads at least this. -/
  | clock (time : Nat)

/-- The key that a deed is done for. -/
def Deed.key? : Deed → Option String
  | .call key _ | .drop key _ | .remove key | .caller key _ | .worker key _ => some key
  | .ledger _ _ | .clock _ => none

/-- The callers of a key, in the order in which they came. -/
def callersOf (s : State) (key : String) : List CallerId :=
  s.callers.numbers (·.key = key)

/-- The workers of a key, in the order in which they were created. -/
def workersOf (s : State) (key : String) : List WorkerId :=
  s.workers.numbers (·.key = key)

/-- A task has a turn. -/
def turn (s : State) (τ : Task) : State :=
  ({ s with running := some τ }.step).getD s

/-- Do one thing. -/
def perform (s : State) : Deed → State
  | .call key request => (s.addCaller { key, request }).2
  | .drop key n =>
    match (s.callersOf key)[n]? with
    | some c => s.dropCaller c
    | none => s
  | .remove key => (s.remove key).2
  | .caller key n =>
    match (s.callersOf key)[n]? with
    | some c => s.turn (.caller c)
    | none => s
  | .worker key n =>
    match (s.workersOf key)[n]? with
    | some w => s.turn (.worker w)
    | none => s
  | .ledger name use => s.setLedger name (use (s.ledger name))
  | .clock time => { s with now := max s.now time }

/-- What a run comes to. -/
def play (policy : Policy) (connector : Ledger.Connector) (ds : List Deed) : State :=
  ds.foldl perform (start policy connector)

/-- The deeds that are left when those for a key are erased. -/
def erase (key : String) (ds : List Deed) : List Deed :=
  ds.filter (·.key? ≠ some key)

/-- How the calls for a key have ended, if they have. -/
def results (s : State) (key : String) : List (Option Ending) :=
  (s.callersOf key).map s.ending?

variable {s t u : State} {τ : Task} {w : WorkerId} {c : CallerId} {key : String} {d : Deed}
  {policy : Policy} {connector : Ledger.Connector} {ds : List Deed}

/-- Doing one thing more. -/
@[simp] theorem play_append (ds es : List Deed) :
    play policy connector (ds ++ es) = es.foldl perform (play policy connector ds) := by
  rw [play, List.foldl_append]
  rfl

/-- What a worker does that has a turn. -/
theorem turn_worker (s : State) (w : WorkerId) :
    s.turn (.worker w) = { s with running := some (.worker w) }.stepWorker w := rfl

/-- What a caller does that has a turn. -/
theorem turn_caller (s : State) (c : CallerId) :
    s.turn (.caller c) = { s with running := some (.caller c) }.stepCaller c := rfl

/-- A turn is a step of a run. -/
theorem run_turn (s : State) (τ : Task) : Run s (s.turn τ) := by
  have called : Run s { s with running := some τ } := .single (.schedule rfl)
  cases τ with
  | worker w => exact called.tail (.step rfl)
  | caller c => exact called.tail (.step rfl)

/-- A deed is part of a run. -/
theorem run_perform (s : State) (d : Deed) : Run s (s.perform d) := by
  cases d with
  | call key request => exact .single (.dispatch s key request)
  | drop key n =>
    unfold perform
    dsimp only
    split
    next c _ => exact .single (.drop s c)
    next => exact .refl
  | remove key => exact .single (.remove s key)
  | caller key n =>
    unfold perform
    dsimp only
    split
    next c _ => exact run_turn s _
    next => exact .refl
  | worker key n =>
    unfold perform
    dsimp only
    split
    next w _ => exact run_turn s _
    next => exact .refl
  | ledger name use => exact .single (.ledger s name _)
  | clock time => exact .single (.wait s (Nat.le_max_left _ _))

/-- Deeds that are done one after the other make up a run. -/
theorem run_performAll (ds : List Deed) (s : State) : Run s (ds.foldl perform s) := by
  induction ds generalizing s with
  | nil => exact .refl
  | cons d ds ih => exact (run_perform s d).trans (ih _)

theorem reachable_play (ds : List Deed) : (play policy connector ds).Reachable :=
  ⟨policy, connector, run_performAll ds _⟩

/-- What some deeds come to comes before what more deeds come to. -/
theorem later_play {es : List Deed} (part : es <+: ds) :
    (play policy connector es).Later (play policy connector ds) := by
  obtain ⟨rest, rfl⟩ := part
  rw [play_append]
  exact (run_performAll rest _).later

end State

end Signatory.Service
