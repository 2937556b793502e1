import Signatory.Proofs.Service.Extract

/-!
# In step with an extract

What a worker or a caller on the side of an extract does to the whole, it does to the extract under
its other number: it decides the same things, at the same time, and gives the same answers.
-/

namespace Signatory.Service.State.Extract

variable {φ : Renaming} {side : String → Bool} {own : String → Prop} {s r : State}
  {w : WorkerId} {c : CallerId} {x x' : Caller} {y z : Worker} {e : Envelope} {key : String}

section Working

/-- What is done for each envelope is done for each in the extract. -/
theorem each {f g : State → Envelope → State}
    (once : ∀ {s r} e, Extract φ side own s r → Extract φ side own (f s (e.rename φ)) (g r e))
    (es : List Envelope) (h : Extract φ side own s r) :
    Extract φ side own ((es.map (·.rename φ)).foldl f s) (es.foldl g r) := by
  induction es generalizing s r with
  | nil => exact h
  | cons e es ih => exact ih (once e h)

theorem deliver (h : Extract φ side own s r) (w : WorkerId) (c : CallerId) (reply : Reply) :
    Extract φ side own (s.deliver (φ.worker w) (φ.caller c) reply) (r.deliver w c reply) := by
  unfold State.deliver
  rw [h.awaits]
  split
  next =>
    refine (h.updateCaller c fun _ like ↦ ?_).wake _ _
    exact ⟨{ like with phase := rfl }, rfl⟩
  next => exact h

theorem handBack (h : Extract φ side own s r) (w : WorkerId) (e : Envelope) :
    Extract φ side own (s.handBack (φ.worker w) (e.rename φ)) (r.handBack w e) := by
  unfold State.handBack
  rw [show (e.rename φ).caller = φ.caller e.caller from rfl, h.awaits]
  split
  next => exact (h.log _ _).deliver w e.caller .handedBack
  next => exact h

theorem grantPlace (h : Extract φ side own s r) (w : WorkerId) :
    Extract φ side own (s.grantPlace (φ.worker w)) (r.grantPlace w) := by
  unfold State.grantPlace
  cases found : r.workers.get? w with
  | none =>
    rw [h.workers.missing found]
    exact h
  | some y =>
    obtain ⟨z, there, like, -⟩ := h.workers.found found
    rw [there]
    dsimp only
    rw [like.mailbox, Mailbox.grant_rename]
    rcases y.mailbox.grant with ⟨_ | c, mailbox⟩
    · exact h
    · refine (h.updateWorker w fun _ like ↦ ?_).wake _ _
      exact ⟨{ like with mailbox := rfl }, rfl⟩

theorem countExit (h : Extract φ side own s r) (reason : ExitReason) :
    Extract φ side own (s.countExit reason) (r.countExit reason) := by
  cases reason with
  | removed => exact h
  | idleTimeout => exact { h with }
  | shutdown => exact h
  | aborted => exact { h with }

theorem hook (h : Extract φ side own s r) (inside : side key = true) (w : WorkerId)
    (reason : ExitReason) :
    Extract φ side own (s.hook (φ.worker w) key reason) (r.hook w key reason) :=
  ((h.log _ _).detach inside w).2.countExit reason

theorem closeMailbox (h : Extract φ side own s r) (w : WorkerId) (m : Mailbox) :
    Extract φ side own (s.closeMailbox (φ.worker w) (m.rename φ)) (r.closeMailbox w m) := by
  refine Extract.wakeCallers (Extract.log (h.updateWorker w fun _ like ↦ ?_) _ _) _ _
  exact ⟨{ like with mailbox := Mailbox.close_rename }, rfl⟩

theorem leave (h : Extract φ side own s r) (inside : side y.key = true) (like : y.Like φ z)
    (w : WorkerId) (reason : ExitReason) :
    Extract φ side own (s.leave (φ.worker w) z reason) (r.leave w y reason) := by
  unfold State.leave
  dsimp only
  rw [like.key, like.mailbox]
  have returned := each (fun e h ↦ h.handBack w e) y.mailbox.queue
    ((h.hook inside w reason).closeMailbox w y.mailbox)
  refine (returned.updateWorker w fun _ like ↦ ?_).rest
  exact ⟨{ like with activity := .left reason }, rfl⟩

theorem die (h : Extract φ side own s r) (like : y.Like φ z) (w : WorkerId) (hand : Envelope) :
    Extract φ side own (s.die (φ.worker w) z (hand.rename φ)) (r.die w y hand) := by
  unfold State.die
  dsimp only
  rw [like.mailbox]
  have told := ((h.log (.died (φ.worker w)) (.died w)).deliver w hand.caller .lost).closeMailbox w
    y.mailbox
  have lost := each (f := fun s e ↦ s.deliver (φ.worker w) e.caller .lost)
    (fun e h ↦ h.deliver w e.caller .lost) y.mailbox.queue told
  refine (lost.updateWorker w fun _ like ↦ ?_).rest
  exact ⟨{ like with activity := .died }, rfl⟩

theorem respond (h : Extract φ side own s r) (w : WorkerId) (e : Envelope) (result : Result) :
    Extract φ side own (s.respond (φ.worker w) (e.rename φ) result) (r.respond w e result) :=
  (h.log _ _).deliver w e.caller (.answered result)

theorem complete (h : Extract φ side own s r) (w : WorkerId) (e : Envelope)
    (done : Result × Option Identity) :
    Extract φ side own (s.complete (φ.worker w) (e.rename φ) done) (r.complete w e done) := by
  refine Extract.respond (h.updateWorker w fun _ like ↦ ?_) w e done.1
  exact ⟨{ like with identity := rfl, activity := .idle }, rfl⟩

theorem beginConnect (h : Extract φ side own s r) (w : WorkerId) (e : Envelope) (c : Credentials) :
    Extract φ side own (s.beginConnect (φ.worker w) (e.rename φ) c) (r.beginConnect w e c) := by
  unfold State.beginConnect
  dsimp only
  rw [h.connector]
  obtain ⟨due, begun⟩ := h.alarmAfter (r.connector c.endpoint).wait
  refine begun.updateWorker w fun _ like ↦ ?_
  exact ⟨{ like with activity := .connecting due }, rfl⟩

theorem beginLookup (h : Extract φ side own s r) (w : WorkerId) (e : Envelope)
    (attempt wait : Nat) :
    Extract φ side own (s.beginLookup (φ.worker w) (e.rename φ) attempt wait)
      (r.beginLookup w e attempt wait) := by
  obtain ⟨due, begun⟩ := h.alarmAfter wait
  refine begun.updateWorker w fun _ like ↦ ?_
  exact ⟨{ like with activity := .syncing due }, rfl⟩

theorem handle (h : Extract φ side own s r) (like : y.Like φ z) (w : WorkerId) (e : Envelope) :
    Extract φ side own (s.handle (φ.worker w) z (e.rename φ)) (r.handle w y e) := by
  have begun := h.log (.accepted (e.rename φ).caller (φ.worker w)) (.accepted e.caller w)
  unfold State.handle
  dsimp only
  rw [show (e.rename φ).request = e.request from rfl, like.key, like.identity]
  cases e.request with
  | generate c => exact begun.beginConnect w e c
  | sign d => exact begun.complete w e _
  | query q => exact begun.complete w e _
  | syncNonce =>
    cases y.identity with
    | none => exact begun.complete w e _
    | some i => exact begun.beginLookup w e 1 0

theorem accept (h : Extract φ side own s r) (inside : side y.key = true) (like : y.Like φ z)
    (w : WorkerId) (e : Envelope) :
    Extract φ side own (s.accept (φ.worker w) z (e.rename φ)) (r.accept w y e) := by
  unfold State.accept
  dsimp only
  rw [show (e.rename φ).key = e.key from rfl, like.key]
  split
  next => exact h.handle like w e
  next => exact (h.respond w e _).leave inside like w .aborted

theorem take (h : Extract φ side own s r) (inside : side y.key = true) (like : y.Like φ z)
    (w : WorkerId) (e : Envelope) :
    Extract φ side own (s.take (φ.worker w) z (e.rename φ)) (r.take w y e) := by
  unfold State.take
  rw [show (e.rename φ).caller = φ.caller e.caller from rfl, h.awaits, h.canReach, h.policy]
  split
  next => exact h.log _ _
  next =>
    split
    next => exact h.die like w e
    next =>
      obtain ⟨due, begun⟩ := h.alarmAfter r.policy.idleTimeout
      refine Extract.accept (begun.updateWorker w fun _ like ↦ ?_) inside like w e
      exact ⟨{ like with idle := due }, rfl⟩

theorem look (h : Extract φ side own s r) (inside : side y.key = true) (like : y.Like φ z)
    (w : WorkerId) : Extract φ side own (s.look (φ.worker w) z) (r.look w y) := by
  unfold State.look
  rw [like.cancelled, like.held, like.idle, like.mailbox, Mailbox.pop?_rename,
    Mailbox.isAwaited_rename, h.shut, h.now]
  split
  next => exact h.leave inside like w _
  next =>
    cases y.mailbox.pop? with
    | none =>
      dsimp only [Option.map_none]
      split
      next => exact h.leave inside like w _
      next =>
        split
        next => exact h.leave inside like w _
        next => exact h.rest
    | some taken =>
      obtain ⟨e, mailbox⟩ := taken
      dsimp only [Option.map_some]
      have granted :=
        (h.updateWorker w (f := fun z ↦ { z with mailbox := mailbox.rename φ })
          (g := fun y ↦ { y with mailbox })
          fun _ like ↦ ⟨{ like with mailbox := rfl }, rfl⟩).grantPlace w
      cases found : ((r.updateWorker w fun y ↦ { y with mailbox }).grantPlace w).workers.get? w with
      | none =>
        rw [granted.workers.missing found]
        exact granted.rest
      | some y' =>
        obtain ⟨z', there, like', inside'⟩ := granted.workers.found found
        rw [there]
        exact granted.take inside' like' w e

theorem connected (h : Extract φ side own s r) (like : y.Like φ z) (w : WorkerId) (e : Envelope)
    (c : Credentials) (outcome : Ledger.Connection) :
    Extract φ side own (s.connected (φ.worker w) z (e.rename φ) c outcome)
      (r.connected w y e c outcome) := by
  cases outcome with
  | crash => exact h.die like w e
  | refused fault =>
    unfold State.connected
    dsimp only
    rw [like.identity]
    exact h.complete w e _
  | place place => exact (h.ensureLedger place).complete w e _

theorem lookedUp (h : Extract φ side own s r) (like : y.Like φ z)
    (uses : ∀ i name, y.identity = some i → i.ledger = .memory name → own name) (w : WorkerId)
    (e : Envelope) (attempt : Nat) :
    Extract φ side own (s.lookedUp (φ.worker w) z (e.rename φ) attempt)
      (r.lookedUp w y e attempt) := by
  unfold State.lookedUp
  rw [like.identity, like.key]
  cases identity : y.identity with
  | none => exact h.complete w e _
  | some i =>
    dsimp only
    obtain ⟨answer, looked⟩ := h.lookup i.address fun name ↦ uses i name identity
    rw [looked.policy, answer]
    split
    next => exact looked.complete w e _
    next => exact looked.beginLookup w e _ _

/-- What a worker of the extract does, it does to the whole. -/
theorem stepWorker (h : Extract φ side own s r) (w : WorkerId)
    (uses : ∀ y i name, r.workers.get? w = some y → y.identity = some i →
      i.ledger = .memory name → own name) :
    Extract φ side own (s.stepWorker (φ.worker w)) (r.stepWorker w) := by
  unfold State.stepWorker
  cases found : r.workers.get? w with
  | none =>
    rw [h.workers.missing found]
    exact h.rest
  | some y =>
    obtain ⟨z, there, like, inside⟩ := h.workers.found found
    rw [there]
    dsimp only
    generalize doing : y.activity = a, doing' : z.activity = b
    have alike : a.Like φ b := doing ▸ doing' ▸ like.activity
    cases alike with
    | idle => exact h.look inside like w
    | @connecting e c outcome alarm alarm' due =>
      dsimp only
      rw [due, h.now]
      split
      next => exact h.connected like w e c outcome
      next => exact h.rest
    | @syncing e attempt alarm alarm' due =>
      dsimp only
      rw [due, h.now]
      split
      next => exact h.lookedUp like (fun i name ↦ uses y i name found) w e attempt
      next => exact h.rest
    | left reason => exact h.rest
    | died => exact h.rest

end Working

section Calling

theorem conclude (h : Extract φ side own s r) (c : CallerId) (ending : Ending) :
    Extract φ side own (s.conclude (φ.caller c) ending) (r.conclude c ending) := by
  refine (Extract.log (h.updateCaller c fun _ like ↦ ?_) _ _).rest
  exact ⟨{ like with phase := rfl }, rfl⟩

theorem withdraw (h : Extract φ side own s r) (like : x.Like φ x') (c : CallerId) :
    Extract φ side own (s.withdraw (φ.caller c) x') (r.withdraw c x) := by
  unfold State.withdraw
  rw [like.phase]
  cases x.phase with
  | suspended w =>
    dsimp only [Phase.rename]
    cases found : r.workers.get? w with
    | none =>
      rw [h.workers.missing found]
      exact h
    | some y =>
      obtain ⟨z, there, like, -⟩ := h.workers.found found
      rw [there]
      dsimp only
      rw [like.mailbox, like.held, Mailbox.withdraw_rename h.callers.injective,
        Mailbox.grant_rename, Mailbox.isAwaited_rename]
      have freed := (h.updateWorker w
        (f := fun z ↦ { z with mailbox := (y.mailbox.withdraw c).grant.2.rename φ })
        (g := fun y' ↦ { y' with mailbox := (y.mailbox.withdraw c).grant.2 })
        fun _ like ↦ ⟨{ like with mailbox := rfl }, rfl⟩).wakeCallers
          ((y.mailbox.withdraw c).grant.1.map φ.caller).toList
          (y.mailbox.withdraw c).grant.1.toList
      split
      next => exact freed.wakeWorker _ _
      next => exact freed
  | _ => exact h

/-- A caller that waits gives up at the same time. -/
theorem pend (h : Extract φ side own s r) (like : x.Like φ x') (c : CallerId) :
    Extract φ side own (s.pend (φ.caller c) x') (r.pend c x) := by
  unfold State.pend
  rw [like.direct, like.direct', h.policy]
  cases r.policy.requestTimeout with
  | none => exact h.rest
  | some wait =>
    -- Whether the limit is old or new, it is the same moment in both.
    have decided {a b : Alarm} {t u : State} (i : Extract φ side own t u) (due : a.time = b.time) :
        Extract φ side own
          (if a.time ≤ t.now then
              (t.withdraw (φ.caller c) x').conclude (φ.caller c) (.result (.error .timeout))
            else (t.updateCaller (φ.caller c) fun caller ↦ { caller with limit := some a }).rest)
          (if b.time ≤ u.now then (u.withdraw c x).conclude c (.result (.error .timeout))
            else (u.updateCaller c fun caller ↦ { caller with limit := some b }).rest) := by
      rw [due, i.now]
      split
      next => exact (i.withdraw like c).conclude c _
      next =>
        refine (i.updateCaller c fun _ like ↦ ?_).rest
        exact ⟨{ like with limit := congrArg some due }, rfl⟩
    have limit := like.limit
    cases known : x.limit with
    | none =>
      rw [known, Option.map_none, Option.map_eq_none_iff] at limit
      rw [limit]
      obtain ⟨due, begun⟩ := h.alarmAfter wait
      exact decided begun due
    | some b =>
      rw [known, Option.map_some, Option.map_eq_some_iff] at limit
      obtain ⟨a, known', due⟩ := limit
      rw [known']
      exact decided h due

theorem concludeNotFound (h : Extract φ side own s r) (c : CallerId) (key : String) :
    Extract φ side own (s.concludeNotFound (φ.caller c) key) (r.concludeNotFound c key) :=
  (h.count _ _).conclude c _

theorem retry (h : Extract φ side own s r) (c : CallerId) :
    Extract φ side own (s.retry (φ.caller c)) (r.retry c) := by
  refine h.updateCaller c fun _ like ↦ ?_
  exact ⟨{ like with phase := rfl, tries := congrArg (· - 1) like.tries }, rfl⟩

theorem turnedAway (h : Extract φ side own s r) (like : x.Like φ x') (inside : side x.key = true)
    (c : CallerId) (w : WorkerId) :
    Extract φ side own (s.turnedAway (φ.caller c) x' (φ.worker w)) (r.turnedAway c x w) := by
  unfold State.turnedAway
  rw [like.direct, like.direct', like.key]
  exact (h.detach inside w).2.retry c

/-- An envelope is put into a mailbox in the same way. -/
theorem enqueue (h : Extract φ side own s r) (like : x.Like φ x') (c : CallerId) (w : WorkerId)
    {put : Mailbox → Envelope → Mailbox}
    (same : ∀ m e, put (m.rename φ) (e.rename φ) = (put m e).rename φ) :
    Extract φ side own (s.enqueue (φ.caller c) x' (φ.worker w) put) (r.enqueue c x w put) := by
  unfold State.enqueue
  dsimp only
  rw [like.key, like.request]
  refine (Extract.log (Extract.updateCaller (h.updateWorker w fun {y _} _ like ↦ ?_) c
    fun _ like ↦ ?_) _ _).wakeWorker _ _
  · refine ⟨{ like with mailbox := ?_ }, rfl⟩
    dsimp only
    rw [like.mailbox]
    exact same y.mailbox ⟨x.key, x.request, c⟩
  · exact ⟨{ like with phase := rfl }, rfl⟩

theorem offer (h : Extract φ side own s r) (like : x.Like φ x') (inside : side x.key = true)
    (c : CallerId) (w : WorkerId) :
    Extract φ side own (s.offer (φ.caller c) x' (φ.worker w)) (r.offer c x w) := by
  have offered := h.log (.offered (φ.caller c) (φ.worker w)) (.offered c w)
  unfold State.offer
  dsimp only
  cases found : (r.log (.offered c w)).workers.get? w with
  | none =>
    rw [offered.workers.missing found]
    exact offered.turnedAway like inside c w
  | some y =>
    obtain ⟨z, there, alike, -⟩ := offered.workers.found found
    rw [there]
    dsimp only
    rw [alike.mailbox, Mailbox.closed_rename, Mailbox.free_rename]
    split
    next => exact offered.turnedAway like inside c w
    next =>
      split
      next => exact offered.enqueue like c w fun _ _ ↦ Mailbox.push_rename
      next =>
        refine Extract.updateCaller (offered.updateWorker w fun _ like ↦ ?_) c fun _ like ↦ ?_
        · have same := (congrArg (·.suspend (φ.caller c)) like.mailbox).trans Mailbox.suspend_rename
          exact ⟨{ like with mailbox := same }, rfl⟩
        · exact ⟨{ like with phase := rfl }, rfl⟩

/-- A new worker stands for the next one of the extract. -/
theorem spawn (h : Extract φ side own s r) (inside : side key = true)
    (next : φ.worker r.workers.size = s.workers.size) :
    (s.spawn key).1 = φ.worker (r.spawn key).1 ∧
      Extract φ side own (s.spawn key).2 (r.spawn key).2 := by
  have like : Worker.Like φ
      { key, mailbox := { capacity := max r.bare.policy.queueCapacity 1 },
        idle := (r.alarmAfter r.policy.idleTimeout).1 }
      { key, mailbox := { capacity := max s.bare.policy.queueCapacity 1 },
        idle := (s.alarmAfter s.policy.idleTimeout).1 } := by
    have policy : s.bare.policy = r.bare.policy := h.policy
    rw [policy, h.policy]
    exact ⟨rfl, rfl, rfl, (h.alarmAfter r.policy.idleTimeout).1, rfl, rfl, .idle⟩
  have pushed := h.workers.push next like.key like inside
  refine ⟨next.symm, of_bare ?_⟩
  rw [bare_spawn, bare_spawn]
  refine { h with workers := pushed, find? := fun {k} own ↦ ?_ }
  rw [find?_eq, find?_eq, lookUp_cons, lookUp_cons, lookUp_filter, lookUp_filter]
  split
  next => exact congrArg some next.symm
  next => exact h.find? own

/-- A request is offered to a new worker in both, or to none. -/
theorem offerNew (h : Extract φ side own s r) (like : x.Like φ x') (inside : side x.key = true)
    (c : CallerId)
    (next : s.workers.size < (s.offerNew (φ.caller c) x').workers.size →
      φ.worker r.workers.size = s.workers.size) :
    Extract φ side own (s.offerNew (φ.caller c) x') (r.offerNew c x) := by
  unfold State.offerNew at next ⊢
  rw [h.policy] at next ⊢
  split
  next => exact h.conclude c _
  next able =>
    rw [if_neg able] at next
    dsimp only at next ⊢
    rw [like.key] at next ⊢
    have grows : s.workers.size <
        ((s.spawn x.key).2.offer (φ.caller c) x' (s.spawn x.key).1).workers.size := by
      rw [size_offer]
      have grown := congrArg (fun t ↦ t.workers.size) (bare_spawn s x.key)
      exact Nat.lt_of_lt_of_eq (Nat.lt_succ_self _) (grown.trans (Table.size_push ..)).symm
    obtain ⟨same, spawned⟩ := h.spawn inside (next grows)
    rw [same]
    exact spawned.offer like inside c _

/-- A caller looks for the worker of its key in the same way. -/
theorem seek (h : Extract φ side own s r) (like : x.Like φ x') (inside : side x.key = true)
    (c : CallerId)
    (next : s.workers.size < (s.seek (φ.caller c) x').workers.size →
      φ.worker r.workers.size = s.workers.size) :
    Extract φ side own (s.seek (φ.caller c) x') (r.seek c x) := by
  unfold State.seek at next ⊢
  rw [like.tries, like.key, like.request, h.shut, h.find? inside] at next ⊢
  split
  next => exact h.concludeNotFound c _
  next some_left =>
    rw [if_neg some_left] at next
    split
    next => exact h.conclude c _
    next serving =>
      rw [if_neg serving] at next
      cases named : r.find? x.key with
      | none =>
        rw [named] at next
        dsimp only [Option.map_none] at next ⊢
        split
        next creates =>
          rw [if_pos creates] at next
          exact h.offerNew like inside c next
        next => exact h.concludeNotFound c _
      | some w =>
        rw [named] at next
        dsimp only [Option.map_some] at next ⊢
        rw [h.isClosed] at next ⊢
        split
        next creates =>
          rw [if_pos creates] at next
          exact h.offerNew like inside c next
        next => exact h.offer like inside c w

theorem resume (h : Extract φ side own s r) (like : x.Like φ x') (inside : side x.key = true)
    (c : CallerId) (w : WorkerId) :
    Extract φ side own (s.resume (φ.caller c) x' (φ.worker w)) (r.resume c x w) := by
  unfold State.resume
  cases found : r.workers.get? w with
  | none =>
    rw [h.workers.missing found]
    exact h.turnedAway like inside c w
  | some y =>
    obtain ⟨z, there, alike, -⟩ := h.workers.found found
    rw [there]
    dsimp only
    rw [alike.mailbox, Mailbox.closed_rename]
    split
    next => exact h.turnedAway like inside c w
    next =>
      by_cases place : c ∈ y.mailbox.reserved
      · rw [if_pos place, if_pos ((Mailbox.mem_reserved_rename h.callers.injective).mpr place)]
        exact h.enqueue like c w fun _ _ ↦ Mailbox.occupy_rename h.callers.injective
      · rw [if_neg place, if_neg fun there ↦
          place ((Mailbox.mem_reserved_rename h.callers.injective).mp there)]
        exact h.pend like c

theorem receive (h : Extract φ side own s r) (like : x.Like φ x') (inside : side x.key = true)
    (c : CallerId) (w : WorkerId) (reply : Reply) :
    Extract φ side own (s.receive (φ.caller c) x' (φ.worker w) reply) (r.receive c x w reply) := by
  unfold State.receive
  rw [like.direct, like.direct', like.key, like.request]
  cases reply with
  | answered result => exact h.conclude c _
  | handedBack => exact h.retry c
  | lost =>
    dsimp only
    obtain ⟨same, detached⟩ := h.detach inside w
    rw [same]
    split
    next => exact (detached.count _ _).conclude c _
    next => exact detached.conclude c _

theorem begin (h : Extract φ side own s r) (like : x.Like φ x') (c : CallerId) :
    Extract φ side own (s.begin (φ.caller c) x') (r.begin c x) := by
  unfold State.begin
  rw [like.direct, like.direct']
  refine Extract.count (Extract.log (h.updateCaller c fun _ like ↦ ?_) _ _) _ _
  exact ⟨{ like with phase := rfl }, rfl⟩

/-- What a caller of the extract does, it does to the whole. -/
theorem stepCaller (h : Extract φ side own s r) (c : CallerId)
    (next : s.workers.size < (s.stepCaller (φ.caller c)).workers.size →
      φ.worker r.workers.size = s.workers.size) :
    Extract φ side own (s.stepCaller (φ.caller c)) (r.stepCaller c) := by
  unfold State.stepCaller at next ⊢
  cases known : r.callers.get? c with
  | none =>
    rw [h.callers.missing known]
    exact h.rest
  | some x =>
    obtain ⟨x', there, like, inside⟩ := h.callers.found known
    rw [there] at next ⊢
    dsimp only at next ⊢
    rw [like.phase, Phase.isEnded_rename, like.dropped] at next ⊢
    split
    next => exact h.rest
    next going =>
      rw [if_neg going] at next
      split
      next => exact (h.withdraw like c).conclude c _
      next stays =>
        rw [if_neg stays] at next
        cases phase : x.phase with
        | fresh => exact h.begin like c
        | seeking =>
          rw [phase] at next
          dsimp only [Phase.rename] at next ⊢
          rw [like.direct, like.direct'] at *
          exact h.seek like inside c next
        | suspended w => exact h.resume like inside c w
        | awaiting w => exact h.pend like c
        | replied w reply => exact h.receive like inside c w reply
        | ended ending => exact h.rest

end Calling

section Doing

/-- The callers of a key on the side, under their other numbers. -/
theorem callersOf (h : Extract φ side own s r) (inside : side key = true) :
    s.callersOf key = (r.callersOf key).map φ.caller :=
  h.callers.numbers_key Caller.Like.key inside

/-- The workers of a key on the side, under their other numbers. -/
theorem workersOf (h : Extract φ side own s r) (inside : side key = true) :
    s.workersOf key = (r.workersOf key).map φ.worker :=
  h.workers.numbers_key Worker.Like.key inside

/-- A call ends in the same way. -/
theorem ending? (h : Extract φ side own s r) (c : CallerId) :
    s.ending? (φ.caller c) = r.ending? c := by
  unfold State.ending?
  cases known : r.callers.get? c with
  | none => rw [h.callers.missing known]
  | some x =>
    obtain ⟨x', there, like, -⟩ := h.callers.found known
    rw [there]
    dsimp only
    rw [like.phase]
    cases x.phase <;> rfl

/-- A worker has the same identity. -/
theorem identity? (h : Extract φ side own s r) (w : WorkerId) :
    s.identity? (φ.worker w) = r.identity? w := by
  unfold State.identity?
  cases found : r.workers.get? w with
  | none => rw [h.workers.missing found]
  | some y =>
    obtain ⟨z, there, like, -⟩ := h.workers.found found
    rw [there]
    exact like.identity

theorem addCaller (h : Extract φ side own s r) (inside : side key = true) (request : Request)
    (next : φ.caller r.callers.size = s.callers.size) :
    Extract φ side own (s.addCaller { key, request }).2 (r.addCaller { key, request }).2 :=
  { h with
    callers := h.callers.push next rfl ⟨rfl, rfl, rfl, rfl, rfl, rfl, rfl, rfl⟩
      inside }

theorem dropCaller (h : Extract φ side own s r) (c : CallerId) :
    Extract φ side own (s.dropCaller (φ.caller c)) (r.dropCaller c) := by
  unfold State.dropCaller hasEnded
  rw [h.ending?]
  split
  next => exact h
  next =>
    refine (h.updateCaller c fun _ like ↦ ?_).wake _ _
    exact ⟨{ like with dropped := rfl }, rfl⟩

theorem cancel (h : Extract φ side own s r) (w : WorkerId) :
    Extract φ side own (s.cancel (φ.worker w)) (r.cancel w) := by
  refine (h.updateWorker w fun _ like ↦ ?_).wakeWorker _ _
  exact ⟨{ like with cancelled := rfl }, rfl⟩

theorem remove (h : Extract φ side own s r) (inside : side key = true) :
    Extract φ side own (s.remove key).2 (r.remove key).2 := by
  unfold State.remove
  rw [h.find? inside]
  cases r.find? key with
  | none =>
    dsimp only [Option.map_none]
    exact h.count _ _
  | some w =>
    dsimp only [Option.map_some]
    exact (((h.detach inside w).2.cancel w).log _ _).count _ _

/-- The worker and the caller that come next have the numbers that they stand for. -/
structure Numbered (φ : Renaming) (r s t : State) : Prop where
  worker : s.workers.size < t.workers.size → φ.worker r.workers.size = s.workers.size
  caller : s.callers.size < t.callers.size → φ.caller r.callers.size = s.callers.size

/-- What is done for a key of the extract is done to the whole. -/
theorem perform (h : Extract φ side own s r) (d : Deed)
    (inside : ∀ key, d.key? = some key → side key = true)
    (uses : ∀ w y i name, r.workers.get? w = some y → y.identity = some i →
      i.ledger = .memory name → own name)
    (numbered : Numbered φ r s (s.perform d)) : Extract φ side own (s.perform d) (r.perform d) := by
  cases d with
  | call key request =>
    refine h.addCaller (inside key rfl) request (numbered.caller ?_)
    exact Nat.lt_of_lt_of_eq (Nat.lt_succ_self _) (Table.size_push ..).symm
  | drop key n =>
    unfold State.perform
    dsimp only
    rw [h.callersOf (inside key rfl), List.getElem?_map]
    cases (r.callersOf key)[n]? with
    | none => exact h
    | some c => exact h.dropCaller c
  | remove key => exact h.remove (inside key rfl)
  | caller key n =>
    unfold State.perform at numbered ⊢
    dsimp only at numbered ⊢
    rw [h.callersOf (inside key rfl), List.getElem?_map] at numbered ⊢
    cases there : (r.callersOf key)[n]? with
    | none => exact h
    | some c =>
      rw [there] at numbered
      have called : Extract φ side own { s with running := some (.caller (φ.caller c)) }
          { r with running := some (.caller c) } := { h with }
      exact called.stepCaller c numbered.worker
  | worker key n =>
    unfold State.perform
    dsimp only
    rw [h.workersOf (inside key rfl), List.getElem?_map]
    cases (r.workersOf key)[n]? with
    | none => exact h
    | some w =>
      have called : Extract φ side own { s with running := some (.worker (φ.worker w)) }
          { r with running := some (.worker w) } := { h with }
      exact called.stepWorker w (uses w)
  | ledger name use => exact h.setLedger name fun inside ↦ congrArg use (h.ledgers inside)
  | clock time => exact { h with now := congrArg (max · time) h.now }

end Doing

end Signatory.Service.State.Extract
