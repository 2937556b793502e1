import Signatory.Proofs.Service.Lockstep

/-!
# Views

What is seen of a key: the time, its calls and its workers, in the order in which they came. A view
tells whether there is anything to do, when there will be, and what has been answered, and names no
number, so that views of different runs can be compared. An extract has the same view of the keys on
its side as the whole.
-/

namespace Signatory.Service

/-- What is seen of a call. -/
structure CallView where
  ending : Option Ending
  /-- When its caller gives up. -/
  limit : Option Nat
  /-- Whether there is nothing for its caller to do. -/
  rests : Prop

/-- What is seen of a worker. -/
structure WorkerView where
  /-- Whether the directory names it. -/
  isNamed : Prop
  identity : Option Identity
  /-- The requests in its mailbox, the oldest first. -/
  mail : List Request
  /-- When it leaves, unless it accepts a request before. -/
  deadline : Option Nat
  /-- When it goes on with the request in its hand. -/
  due : Option Nat
  /-- Whether there is nothing for it to do. -/
  rests : Prop

/-- What is seen of a key. -/
structure View where
  now : Nat
  calls : List CallView
  workers : List WorkerView

namespace State

/-- What is seen of a call. -/
def callView (s : State) (c : CallerId) : CallView where
  ending := s.ending? c
  limit := (s.callers.get? c).bind fun x ↦ x.limit.map (·.time)
  rests := s.Rests (.caller c)

/-- What is seen of a worker of a key. -/
def workerView (s : State) (key : String) (w : WorkerId) : WorkerView where
  isNamed := s.find? key = some w
  identity := s.identity? w
  mail := ((s.workers.get? w).map fun y ↦ y.mailbox.queue.map (·.request)).getD []
  deadline := (s.workers.get? w).map (·.idle.time)
  due := (s.workers.get? w).bind fun y ↦ y.activity.alarm?.map (·.time)
  rests := s.Rests (.worker w)

/-- What is seen of a key. -/
def view (s : State) (key : String) : View where
  now := s.now
  calls := (s.callersOf key).map s.callView
  workers := (s.workersOf key).map (s.workerView key)

end State

variable {φ : Renaming} {p : Phase} {v : WorkerId} {reply : Reply} {x x' : Caller} {y z : Worker}

namespace Phase

@[simp] theorem rename_eq_fresh : p.rename φ = .fresh ↔ p = .fresh := by
  cases p <;> simp [rename]

@[simp] theorem rename_eq_seeking : p.rename φ = .seeking ↔ p = .seeking := by
  cases p <;> simp [rename]

theorem rename_eq_suspended :
    p.rename φ = .suspended v ↔ ∃ w, p = .suspended w ∧ φ.worker w = v := by
  cases p <;> simp [rename]

theorem rename_eq_replied :
    p.rename φ = .replied v reply ↔ ∃ w, p = .replied w reply ∧ φ.worker w = v := by
  cases p <;> simp [rename, and_comm]

end Phase

/-- What a worker waits for is due at the same time under any names. -/
theorem Activity.Like.due {a b : Activity} (like : a.Like φ b) :
    b.alarm?.map (·.time) = a.alarm?.map (·.time) := by
  cases like with
  | connecting due => exact congrArg some due
  | syncing due => exact congrArg some due
  | _ => rfl

namespace State.Extract

variable {side : String → Bool} {own : String → Prop} {s r : State} {w : WorkerId} {c : CallerId}
  {key : String}

/-- Whether there is nothing for a worker to do is told under any numbers. -/
theorem calm_iff (h : Extract φ side own s r) (like : y.Like φ z) : s.Calm z ↔ r.Calm y := by
  have idle : z.activity = .idle ↔ y.activity = .idle := by
    have same := like.activity.isIdle
    generalize z.activity = b at same
    generalize y.activity = a at same
    cases a <;> cases b <;> simp_all [Activity.isIdle]
  have due := like.activity.due
  constructor
  · intro calm
    refine ⟨fun still ↦ like.cancelled ▸ calm.kept (idle.mpr still), fun alarm waits ↦ ?_⟩
    rw [waits, Option.map_some, Option.map_eq_some_iff] at due
    obtain ⟨alarm', waits', same⟩ := due
    exact h.now ▸ same ▸ calm.ahead alarm' waits'
  · intro calm
    refine ⟨fun still ↦ like.cancelled ▸ calm.kept (idle.mp still), fun alarm waits ↦ ?_⟩
    rw [waits, Option.map_some] at due
    obtain ⟨alarm', waits', same⟩ := Option.map_eq_some_iff.mp due.symm
    exact h.now ▸ same ▸ calm.ahead alarm' waits'

/-- Whether there is nothing for a caller to do is told under any numbers. -/
theorem patient_iff (h : Extract φ side own s r) (like : x.Like φ x') :
    s.Patient (φ.caller c) x' ↔ r.Patient c x := by
  have limited (time : Nat) : (∃ alarm, x'.limit = some alarm ∧ time < alarm.time) ↔
      ∃ alarm, x.limit = some alarm ∧ time < alarm.time := by
    have same := like.limit
    generalize x'.limit = a at same ⊢
    generalize x.limit = b at same ⊢
    cases a <;> cases b <;> simp_all
  constructor
  · intro patient
    refine ⟨fun fresh ↦ ?_, fun seeking ↦ ?_, fun w reply replied ↦ ?_, fun w suspended ↦ ?_,
      fun w y suspended found ↦ ?_⟩
    · exact patient.begun (like.phase.trans (congrArg _ fresh))
    · exact patient.decided (like.phase.trans (congrArg _ seeking))
    · exact patient.silent (φ.worker w) reply (like.phase.trans (congrArg _ replied))
    · exact (h.isClosed w).symm.trans
        (patient.opened (φ.worker w) (like.phase.trans (congrArg _ suspended)))
    · obtain ⟨z, there, alike, -⟩ := h.workers.found found
      obtain ⟨placeless, early⟩ :=
        patient.placeless (φ.worker w) z (like.phase.trans (congrArg _ suspended)) there
      rw [alike.mailbox, Mailbox.mem_reserved_rename h.callers.injective] at placeless
      refine ⟨placeless, fun _ limit known ↦ (limited r.now).mp ?_⟩
      exact h.now ▸ early like.direct' limit (h.policy ▸ known)
  · intro patient
    refine ⟨fun fresh ↦ ?_, fun seeking ↦ ?_, fun v reply waits ↦ ?_, fun v waits ↦ ?_,
      fun v z waits there ↦ ?_⟩
    · exact patient.begun (Phase.rename_eq_fresh.mp (like.phase.symm.trans fresh))
    · exact patient.decided (Phase.rename_eq_seeking.mp (like.phase.symm.trans seeking))
    · obtain ⟨w, replied, -⟩ := Phase.rename_eq_replied.mp (like.phase.symm.trans waits)
      exact patient.silent w reply replied
    · obtain ⟨w, suspended, rfl⟩ := Phase.rename_eq_suspended.mp (like.phase.symm.trans waits)
      exact (h.isClosed w).trans (patient.opened w suspended)
    · obtain ⟨w, suspended, rfl⟩ := Phase.rename_eq_suspended.mp (like.phase.symm.trans waits)
      cases found : r.workers.get? w with
      | none => exact absurd ((h.workers.missing found).symm.trans there) (by simp)
      | some y =>
        obtain ⟨z', there', alike, -⟩ := h.workers.found found
        obtain rfl := Option.some.inj (there.symm.trans there')
        obtain ⟨placeless, early⟩ := patient.placeless w y suspended found
        rw [alike.mailbox, Mailbox.mem_reserved_rename h.callers.injective]
        refine ⟨placeless, fun _ limit known ↦ (limited s.now).mpr ?_⟩
        exact h.now ▸ early like.direct limit (h.policy ▸ known)

/-- Whether there is nothing for a worker to do is told under any numbers. -/
theorem rests_worker (h : Extract φ side own s r) (w : WorkerId) :
    s.Rests (.worker (φ.worker w)) ↔ r.Rests (.worker w) := by
  unfold Rests
  cases found : r.workers.get? w with
  | none => simp [found, h.workers.missing found]
  | some y =>
    obtain ⟨z, there, like, -⟩ := h.workers.found found
    simpa [found, there] using h.calm_iff like

theorem rests_caller (h : Extract φ side own s r) (c : CallerId) :
    s.Rests (.caller (φ.caller c)) ↔ r.Rests (.caller c) := by
  unfold Rests
  cases known : r.callers.get? c with
  | none => simp [known, h.callers.missing known]
  | some x =>
    obtain ⟨x', there, like, -⟩ := h.callers.found known
    simpa [known, there] using h.patient_iff (c := c) like

theorem callView (h : Extract φ side own s r) (c : CallerId) :
    s.callView (φ.caller c) = r.callView c := by
  have limit : ((s.callers.get? (φ.caller c)).bind fun x ↦ x.limit.map (·.time)) =
      (r.callers.get? c).bind fun x ↦ x.limit.map (·.time) := by
    cases known : r.callers.get? c with
    | none => rw [h.callers.missing known]
    | some x =>
      obtain ⟨x', there, like, -⟩ := h.callers.found known
      rw [there]
      exact like.limit
  unfold State.callView
  rw [h.ending?, limit, propext (h.rests_caller c)]

theorem workerView (h : Extract φ side own s r) (inside : side key = true) (w : WorkerId) :
    s.workerView key (φ.worker w) = r.workerView key w := by
  unfold State.workerView
  rw [h.identity?, propext (h.find?_iff inside), propext (h.rests_worker w)]
  cases found : r.workers.get? w with
  | none => rw [h.workers.missing found]
  | some y =>
    obtain ⟨z, there, like, -⟩ := h.workers.found found
    have mail : (y.mailbox.rename φ).queue.map (·.request) = y.mailbox.queue.map (·.request) := by
      simp [Mailbox.rename, Envelope.rename]
    simp only [there, Option.map_some, Option.getD_some, Option.bind_some]
    rw [like.mailbox, mail, like.idle, like.activity.due]

/-- An extract has the same view of the keys on its side. -/
theorem view (h : Extract φ side own s r) (inside : side key = true) : s.view key = r.view key := by
  unfold State.view
  rw [h.now, h.callersOf inside, h.workersOf inside, List.map_map, List.map_map]
  congr 1
  · exact List.map_congr_left fun c _ ↦ h.callView c
  · exact List.map_congr_left fun w _ ↦ h.workerView inside w

end State.Extract

end Signatory.Service
