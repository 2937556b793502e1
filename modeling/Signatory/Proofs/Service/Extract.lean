import Signatory.Proofs.Service.Renaming
import Signatory.Proofs.Service.Selection

/-!
# Extracts

What is left of a service when only the keys on one side are looked at is a service too: an extract
of it. An extract numbers its callers and workers anew, and agrees with the whole on what the
directory names for the keys on its side, on their workers and callers, and on their ledgers. What a
worker or a caller on that side does to the whole it does to the extract in the same way.
-/

namespace Signatory.Service.State

variable {φ : Renaming} {side : String → Bool} {own : String → Prop} {s r t u : State}
  {w : WorkerId} {c : CallerId} {x x' : Caller} {y y' : Worker} {e : Envelope} {key name : String}

/-- One state is what is left of another for the keys on one side, under other numbers. -/
structure Extract (φ : Renaming) (side : String → Bool) (own : String → Prop) (s r : State) :
    Prop where
  policy : s.policy = r.policy
  connector : s.connector = r.connector
  now : s.now = r.now
  shut : s.isShutDown = r.isShutDown
  find? : ∀ {key}, side key = true → s.find? key = (r.find? key).map φ.worker
  workers : Table.Picks φ.worker (Worker.Like φ) Worker.key side s.workers r.workers
  callers : Table.Picks φ.caller (Caller.Like φ) Caller.key side s.callers r.callers
  ledgers : ∀ {name}, own name → s.ledger name = r.ledger name

/-- A ledger that has been put in place is found there, and the others are where they were. -/
theorem ledger_setLedger (s : State) (name other : String) (l : Ledger.Memory) :
    (s.setLedger name l).ledger other = if other = name then l else s.ledger other := by
  unfold ledger State.setLedger
  dsimp only
  rw [List.find?_cons]
  by_cases here : other = name
  · rw [if_pos here, decide_eq_true here.symm]
  · have kept : (s.ledgers.filter (·.1 ≠ name)).find? (·.1 = other) =
        s.ledgers.find? (·.1 = other) := by
      rw [List.find?_filter]
      congr 1
      funext entry
      by_cases asked : entry.1 = other
      · simp [asked, here]
      · simp [asked]
    rw [if_neg here, decide_eq_false (Ne.symm here), kept]

namespace Extract

/-- What is not looked at does not matter. -/
theorem congr (h : Extract φ side own s r) (whole : t.bare = s.bare) (part : u.bare = r.bare) :
    Extract φ side own t u where
  policy := (congrArg State.policy whole).trans (h.policy.trans (congrArg State.policy part).symm)
  connector :=
    (congrArg State.connector whole).trans (h.connector.trans (congrArg State.connector part).symm)
  now := (congrArg State.now whole).trans (h.now.trans (congrArg State.now part).symm)
  shut :=
    (congrArg State.isShutDown whole).trans (h.shut.trans (congrArg State.isShutDown part).symm)
  find? := by
    intro key inside
    have same := congrArg (·.find? key) whole
    have same' := congrArg (·.find? key) part
    exact same.trans ((h.find? inside).trans (congrArg (Option.map _) same').symm)
  workers := by
    have same : t.workers = s.workers := (congrArg State.workers whole :)
    have same' : u.workers = r.workers := (congrArg State.workers part :)
    rw [same, same']
    exact h.workers
  callers := by
    have same : t.callers = s.callers := (congrArg State.callers whole :)
    have same' : u.callers = r.callers := (congrArg State.callers part :)
    rw [same, same']
    exact h.callers
  ledgers := by
    intro name inside
    have same := congrArg (·.ledger name) whole
    have same' := congrArg (·.ledger name) part
    exact same.trans ((h.ledgers inside).trans same'.symm)

/-- The schedule is not looked at. -/
theorem of_bare (h : Extract φ side own s.bare r.bare) : Extract φ side own s r :=
  h.congr rfl rfl

section Parts

theorem wake (h : Extract φ side own s r) (τ υ : Task) :
    Extract φ side own (s.wake τ) (r.wake υ) :=
  h.congr (bare_wake s τ) (bare_wake r υ)

theorem wakeCallers (h : Extract φ side own s r) (cs ds : List CallerId) :
    Extract φ side own (s.wakeCallers cs) (r.wakeCallers ds) :=
  h.congr (bare_wakeCallers s cs) (bare_wakeCallers r ds)

theorem wakeWorker (h : Extract φ side own s r) (v w : WorkerId) :
    Extract φ side own (s.wakeWorker v) (r.wakeWorker w) :=
  h.congr (bare_wakeWorker s v) (bare_wakeWorker r w)

theorem rest (h : Extract φ side own s r) : Extract φ side own s.rest r.rest :=
  h.congr rfl rfl

theorem log (h : Extract φ side own s r) (a b : Event) : Extract φ side own (s.log a) (r.log b) :=
  { h with }

theorem count (h : Extract φ side own s r) (f g : Stats → Stats) :
    Extract φ side own (s.count f) (r.count g) :=
  { h with }

/-- A wait is over at the same time. -/
theorem after (h : Extract φ side own s r) (wait : Nat) : s.after wait = r.after wait :=
  after_congr h.now wait

/-- Whether a moment is within reach is told by the clock. -/
theorem canReach (h : Extract φ side own s r) (wait : Nat) : s.canReach wait = r.canReach wait := by
  unfold State.canReach
  rw [h.now]

theorem alarmAfter (h : Extract φ side own s r) (wait : Nat) :
    (s.alarmAfter wait).1.time = (r.alarmAfter wait).1.time ∧
      Extract φ side own (s.alarmAfter wait).2 (r.alarmAfter wait).2 :=
  ⟨h.after wait, h.congr rfl rfl⟩

theorem updateWorker (h : Extract φ side own s r) (w : WorkerId) {f g : Worker → Worker}
    (same : ∀ {y z}, r.workers.get? w = some y → y.Like φ z →
      (g y).Like φ (f z) ∧ (g y).key = y.key) :
    Extract φ side own (s.updateWorker (φ.worker w) f) (r.updateWorker w g) :=
  { h with workers := h.workers.update Worker.Like.key same }

theorem updateCaller (h : Extract φ side own s r) (c : CallerId) {f g : Caller → Caller}
    (same : ∀ {x y}, r.callers.get? c = some x → x.Like φ y →
      (g x).Like φ (f y) ∧ (g x).key = x.key) :
    Extract φ side own (s.updateCaller (φ.caller c) f) (r.updateCaller c g) :=
  { h with callers := h.callers.update Caller.Like.key same }

/-- Who is named for a key is told under any numbers. -/
theorem find?_iff (h : Extract φ side own s r) (inside : side key = true) :
    s.find? key = some (φ.worker w) ↔ r.find? key = some w := by
  rw [h.find? inside]
  constructor
  · intro named
    obtain ⟨v, named, same⟩ := Option.map_eq_some_iff.mp named
    exact h.workers.injective same ▸ named
  · exact fun named ↦ congrArg _ named

theorem detach (h : Extract φ side own s r) (inside : side key = true) (w : WorkerId) :
    (s.detach key (φ.worker w)).1 = (r.detach key w).1 ∧
      Extract φ side own (s.detach key (φ.worker w)).2 (r.detach key w).2 := by
  unfold State.detach
  by_cases named : r.find? key = some w
  · rw [if_pos named, if_pos ((h.find?_iff inside).mpr named)]
    refine ⟨rfl, { h with find? := fun {k} own ↦ ?_ }⟩
    rw [find?_eq, find?_eq, lookUp_filter, lookUp_filter]
    split
    next => rfl
    next => exact h.find? own
  · rw [if_neg named, if_neg fun named' ↦ named ((h.find?_iff inside).mp named')]
    exact ⟨rfl, h⟩

/-- Whether a mailbox is closed is told under any numbers. -/
theorem isClosed (h : Extract φ side own s r) (w : WorkerId) :
    s.isClosed (φ.worker w) = r.isClosed w := by
  unfold State.isClosed
  cases found : r.workers.get? w with
  | none => rw [h.workers.missing found]
  | some y =>
    obtain ⟨z, there, like, -⟩ := h.workers.found found
    rw [there]
    dsimp only
    rw [like.mailbox, Mailbox.closed_rename]

/-- Whether a caller waits for a reply is told under any numbers. -/
theorem awaits (h : Extract φ side own s r) (c : CallerId) (w : WorkerId) :
    s.awaits (φ.caller c) (φ.worker w) = r.awaits c w := by
  unfold State.awaits
  cases known : r.callers.get? c with
  | none => rw [h.callers.missing known]
  | some x =>
    obtain ⟨x', there, like, -⟩ := h.callers.found known
    rw [there]
    dsimp only
    rw [like.phase]
    cases x.phase with
    | awaiting v => simp [Phase.rename, h.workers.injective.eq_iff]
    | _ => rfl

end Parts

section Ledgers

/-- Putting a ledger in place of another. -/
theorem setLedger (h : Extract φ side own s r) (name : String) {l m : Ledger.Memory}
    (same : own name → l = m) : Extract φ side own (s.setLedger name l) (r.setLedger name m) :=
  { h with
    ledgers := by
      intro other inside
      rw [ledger_setLedger, ledger_setLedger]
      split
      next here => exact same (here ▸ inside)
      next => exact h.ledgers inside }

theorem ensureLedger (h : Extract φ side own s r) (place : Ledger.Place) :
    Extract φ side own (s.ensureLedger place) (r.ensureLedger place) := by
  cases place with
  | memory name => exact h.setLedger name h.ledgers
  | remote url => exact h

/-- A lookup on a ledger of the extract has the same answer. -/
theorem lookup (h : Extract φ side own s r) {place : Ledger.Place} (a : Address)
    (inside : ∀ name, place = .memory name → own name) :
    (s.lookup place a).1 = (r.lookup place a).1 ∧
      Extract φ side own (s.lookup place a).2 (r.lookup place a).2 := by
  cases place with
  | memory name =>
    have same := h.ledgers (inside name rfl)
    refine ⟨congrArg (fun l ↦ (Ledger.Memory.lookup l a).1) same, ?_⟩
    exact h.setLedger name fun _ ↦ congrArg (fun l ↦ (Ledger.Memory.lookup l a).2) same
  | remote url => exact ⟨rfl, h⟩

end Ledgers

end Extract

end Signatory.Service.State
