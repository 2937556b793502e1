import Signatory.Proofs.Service.Sessions

/-!
# Creating a worker

Only a caller that looks for a worker creates one, and it offers its request to it in the same step.
There is room in the mailbox of a new worker, so the envelope goes in at once.
-/

namespace Signatory.Service.State

variable {s t : State} {w : WorkerId} {c : CallerId} {x : Caller}

theorem size_conclude (s : State) (c : CallerId) (e : Ending) :
    (s.conclude c e).workers.size = s.workers.size := rfl

theorem size_withdraw (s : State) (c : CallerId) (x : Caller) :
    (s.withdraw c x).workers.size = s.workers.size := by
  change (s.withdraw c x).bare.workers.size = s.bare.workers.size
  rcases Classical.em (∃ w, x.phase = .suspended w) with ⟨w, suspended⟩ | apart
  · rw [bare_withdraw s w c suspended, Table.size_update]
  · rw [withdraw_of_ne s c fun w suspended ↦ apart ⟨w, suspended⟩]

theorem size_pend (s : State) (c : CallerId) (x : Caller) :
    (s.pend c x).workers.size = s.workers.size := by
  unfold pend
  split
  next =>
    dsimp only
    split
    next =>
      split
      next => exact (size_conclude _ c _).trans (size_withdraw s c x)
      next => rfl
    next =>
      split
      next => exact (size_conclude _ c _).trans (size_withdraw _ c x)
      next => rfl
  next => rfl

theorem size_turnedAway (s : State) (c : CallerId) (x : Caller) (w : WorkerId) :
    (s.turnedAway c x w).workers.size = s.workers.size := by
  unfold turnedAway
  split
  next => rfl
  next => exact congrArg Table.size (workers_detach s x.key w)

theorem size_enqueue (s : State) (c : CallerId) (x : Caller) (w : WorkerId)
    (put : Mailbox → Envelope → Mailbox) :
    (s.enqueue c x w put).workers.size = s.workers.size := by
  change (s.enqueue c x w put).bare.workers.size = s.bare.workers.size
  rw [bare_enqueue, Table.size_update]

theorem size_offer (s : State) (c : CallerId) (x : Caller) (w : WorkerId) :
    (s.offer c x w).workers.size = s.workers.size := by
  unfold offer
  dsimp only
  split
  next => exact size_turnedAway _ c x w
  next =>
    split
    next => exact size_turnedAway _ c x w
    next =>
      split
      next => exact size_enqueue _ c x w _
      next => exact Table.size_update ..

theorem size_resume (s : State) (c : CallerId) (x : Caller) (w : WorkerId) :
    (s.resume c x w).workers.size = s.workers.size := by
  unfold resume
  split
  next => exact size_turnedAway s c x w
  next =>
    split
    next => exact size_turnedAway s c x w
    next =>
      split
      next => exact size_enqueue s c x w _
      next => exact size_pend s c x

theorem size_receive (s : State) (c : CallerId) (x : Caller) (w : WorkerId) (r : Reply) :
    (s.receive c x w r).workers.size = s.workers.size := by
  unfold receive
  split
  next => rfl
  next => split <;> rfl
  next =>
    split
    next => rfl
    next =>
      dsimp only
      split
      next => exact (size_conclude _ c _).trans (congrArg Table.size (workers_detach s x.key w))
      next => exact (size_conclude _ c _).trans (congrArg Table.size (workers_detach s x.key w))

/-- A caller that looks for a worker offers its request to one that is there, or to one that it
creates. -/
theorem seek_of_more (result : s.seek c x = t) (more : t.workers.size ≠ s.workers.size) :
    x.tries ≠ 0 ∧ x.request.createsWorker = true ∧ s.policy.queueCapacity ≤ capacityLimit ∧
      t = (s.spawn x.key).2.offer c x s.workers.size := by
  have new (result : s.offerNew c x = t) : s.policy.queueCapacity ≤ capacityLimit ∧
      t = (s.spawn x.key).2.offer c x s.workers.size := by
    unfold offerNew at result
    split at result
    next => exact absurd (result ▸ rfl) more
    next fits => exact ⟨Nat.le_of_not_lt fits, result.symm⟩
  unfold seek at result
  split at result
  next => exact absurd (result ▸ rfl) more
  next tries =>
    split at result
    next => exact absurd (result ▸ rfl) more
    next =>
      split at result
      next =>
        split at result
        next creates => exact ⟨tries, (Bool.and_eq_true_iff.mp creates).1, new result⟩
        next => exact absurd (result ▸ size_offer s c x _) more
      next =>
        split at result
        next creates => exact ⟨tries, creates, new result⟩
        next => exact absurd (result ▸ rfl) more

/-- A caller that creates a worker offers its request to it in the same step. -/
theorem stepCaller_of_more (result : s.stepCaller c = t)
    (more : t.workers.size ≠ s.workers.size) :
    ∃ x, s.callers.get? c = some x ∧ x.phase = .seeking ∧ x.tries ≠ 0 ∧
      x.request.createsWorker = true ∧ s.policy.queueCapacity ≤ capacityLimit ∧
      t = (s.spawn x.key).2.offer c x s.workers.size := by
  unfold stepCaller at result
  split at result
  next => exact absurd (result ▸ rfl) more
  next x known =>
    split at result
    next => exact absurd (result ▸ rfl) more
    next =>
      split at result
      next => exact absurd (result ▸ size_withdraw s c x) more
      next =>
        split at result
        next =>
          unfold begin at result
          dsimp only at result
          split at result
          next => exact absurd (result ▸ rfl) more
          next => exact absurd (result ▸ rfl) more
        next seeking =>
          split at result
          next => exact absurd (result ▸ size_offer s c x _) more
          next => exact ⟨x, known, seeking, seek_of_more result more⟩
        next => exact absurd (result ▸ size_resume s c x _) more
        next => exact absurd (result ▸ size_pend s c x) more
        next => exact absurd (result ▸ size_receive s c x _ _) more
        next => exact absurd (result ▸ rfl) more

/-- A worker as it is created for a key. -/
def newWorker (s : State) (key : String) : Worker where
  key := key
  mailbox := { capacity := max s.policy.queueCapacity 1 }
  idle := (s.alarmAfter s.policy.idleTimeout).1

/-- A worker that is created has room for the envelope of the caller that creates it. -/
theorem offer_spawn (s : State) (c : CallerId) (x : Caller) :
    ((s.spawn x.key).2.offer c x s.workers.size).bare.workers =
        (s.workers.push (s.newWorker x.key)).update s.workers.size (fun y ↦
          { y with mailbox := y.mailbox.push ⟨x.key, x.request, c⟩ }) ∧
      ((s.spawn x.key).2.offer c x s.workers.size).bare.callers =
        s.callers.update c (fun x ↦ { x with phase := .awaiting s.workers.size }) ∧
      ((s.spawn x.key).2.offer c x s.workers.size).bare.journal =
        ⟨s.now, .queued c s.workers.size⟩ :: ⟨s.now, .offered c s.workers.size⟩ ::
          ⟨s.now, .spawned s.workers.size x.key⟩ :: s.journal := by
  have made := bare_spawn s x.key
  generalize (s.spawn x.key).2 = u at made ⊢
  have found : u.bare.workers.get? s.workers.size = some (s.newWorker x.key) := by
    rw [made]
    exact (Table.get?_push ..).trans (if_pos rfl)
  have found : (u.log (.offered c s.workers.size)).workers.get? s.workers.size =
      some (s.newWorker x.key) := found
  have room : 0 < (s.newWorker x.key).mailbox.free := by
    simp only [newWorker, Mailbox.free, List.length_nil]
    omega
  unfold offer
  dsimp only
  rw [found]
  dsimp only
  rw [if_neg (show ¬ (s.newWorker x.key).mailbox.closed = true from Bool.false_ne_true),
    if_pos room, bare_enqueue, bare_log, made]
  exact ⟨rfl, rfl, rfl⟩

end Signatory.Service.State
