import Signatory.Proofs.Service.Attention

/-!
# No worker idles too long

A worker that looks for something to do and is left out of the schedule has no mail, and its idle
deadline lies ahead: whoever puts mail into its mailbox calls it, and so does the clock when the
deadline has come.
-/

namespace Signatory.Service.State

variable {front : List CallerId} {s t u : State} {τ υ : Task} {w v : WorkerId} {y z : Worker}
  {c : CallerId} {x : Caller} {time : Nat}

/-- A worker that looks for something to do has no mail, and its deadline lies ahead. -/
structure Slack (s : State) (y : Worker) : Prop where
  empty : y.mailbox.queue = []
  early : s.now < y.idle.time

/-- Every worker that looks for something to do is in the schedule, or need not do anything yet. -/
def Watched (s : State) : Prop :=
  ∀ w y, s.workers.get? w = some y → y.activity = .idle → .worker w ∈ s.schedule ∨ s.Slack y

section Working

/-- A worker that is over does not look for anything to do. -/
theorem not_idle_of_over (past : z.activity.isOver = true) : z.activity ≠ .idle := by
  intro idle
  rw [idle] at past
  exact Bool.false_ne_true past

/-- A worker that has taken an envelope and does not go on is over. -/
theorem over_of_take {e : Envelope} (result : u.take w y e = t) (goes : u.running ≠ none)
    (rests : t.running = none) (there : t.workers.get? w = some z) : z.activity.isOver = true := by
  unfold take at result
  split at result
  next =>
    subst result
    exact absurd rests goes
  next =>
    split at result
    next =>
      subst result
      exact over_die there
    next =>
      dsimp only at result
      unfold accept at result
      split at result
      next =>
        subst result
        rw [running_handle] at rests
        exact absurd rests goes
      next =>
        subst result
        exact over_leave there

/-- A worker that has looked for something to do and rests need not do anything yet. -/
theorem slack_of_look (result : s.look w y = t) (found : s.workers.get? w = some y)
    (goes : s.running ≠ none) (rests : t.running = none) (there : t.workers.get? w = some z)
    (idle : z.activity = .idle) : t.Slack z := by
  unfold look at result
  split at result
  next =>
    subst result
    exact absurd idle (not_idle_of_over (over_leave there))
  next =>
    split at result
    next e mailbox popped =>
      dsimp only at result
      split at result
      next =>
        refine absurd idle (not_idle_of_over (over_of_take result ?_ rests there))
        rw [running_grantPlace]
        exact goes
      next missing =>
        subst result
        exact absurd (missing.symm.trans there) (by simp)
    next empty =>
      split at result
      next =>
        subst result
        exact absurd idle (not_idle_of_over (over_leave there))
      next =>
        split at result
        next =>
          subst result
          exact absurd idle (not_idle_of_over (over_leave there))
        next early =>
          subst result
          obtain rfl := Option.some.inj (found.symm.trans there)
          refine ⟨?_, Nat.lt_of_not_le early⟩
          unfold Mailbox.pop? at empty
          split at empty
          next => exact absurd empty (by simp)
          next queue => exact queue

/-- A worker that has gone on with what it connects for, and rests, is over. -/
theorem over_of_connected {e : Envelope} {k : Credentials} {outcome : Ledger.Connection}
    (result : s.connected w y e k outcome = t) (goes : s.running ≠ none) (rests : t.running = none)
    (there : t.workers.get? w = some z) : z.activity.isOver = true := by
  subst result
  cases outcome with
  | crash => exact over_die there
  | refused fault => exact absurd ((running_complete ..).symm.trans rests) goes
  | place place =>
    refine absurd ((running_complete ..).symm.trans rests) ?_
    cases place <;> exact goes

/-- A worker goes on after a lookup. -/
theorem running_lookedUp {e : Envelope} {attempt : Nat} :
    (s.lookedUp w y e attempt).running = s.running := by
  have asked (place : Ledger.Place) (a : Address) : (s.lookup place a).2.running = s.running := by
    cases place <;> rfl
  unfold lookedUp
  split
  next => exact running_complete ..
  next i _ =>
    dsimp only
    split
    next => exact (running_complete ..).trans (asked _ _)
    next => exact asked _ _

/-- A worker that rests while it looks for something to do need not do anything yet. -/
theorem slack_of_rest (result : s.stepWorker w = t) (goes : s.running ≠ none)
    (rests : t.running = none) (there : t.workers.get? w = some z) (idle : z.activity = .idle) :
    t.Slack z := by
  have other {y : Worker} (found : s.workers.get? w = some y) (busy : y.activity ≠ .idle)
      (result : s.rest = t) : t.Slack z := by
    subst result
    exact absurd (Option.some.inj (found.symm.trans there) ▸ idle) busy
  unfold stepWorker at result
  split at result
  next missing =>
    subst result
    exact absurd (missing.symm.trans there) (by simp)
  next worker found =>
    split at result
    next looks => exact slack_of_look result found goes rests there idle
    next connecting =>
      split at result
      next => exact absurd idle (not_idle_of_over (over_of_connected result goes rests there))
      next => exact other found (by simp [connecting]) result
    next syncing =>
      split at result
      next =>
        subst result
        exact absurd (running_lookedUp.symm.trans rests) goes
      next => exact other found (by simp [syncing]) result
    next left => exact other found (by simp [left]) result
    next died => exact other found (by simp [died]) result

/-- A worker that does something leaves the others as they are. -/
theorem Change.others (change : Change s (.worker w) t) (other : v ≠ w) :
    t.workers.get? v = s.workers.get? v := by
  have set {y z : Worker} (found : s.workers.get? w = some y) :
      (s.workers.set w z).get? v = s.workers.get? v := by
    rw [Table.get?_set found, if_neg (Ne.symm other)]
  cases change with
  | rest => rfl
  | leave found => exact set found
  | die found => exact set found
  | skip takes => exact set takes.found
  | misroute takes => exact set takes.found
  | connect accepts => exact set accepts.found
  | lookup accepts => exact set accepts.found
  | serve accepts => exact set accepts.found
  | finish found => exact set found
  | again found => exact set found

end Working

section Calling

/-- Whoever is ready stays so, and a worker that looks for something to do has the mail and the
deadline that it had, or is ready. -/
structure Alerts (s t : State) : Prop where
  ready : s.ready ⊆ t.ready
  workers : ∀ {w z}, t.workers.get? w = some z → z.activity = .idle → .worker w ∈ t.ready ∨
    ∃ y, s.workers.get? w = some y ∧ y.activity = .idle ∧ y.mailbox.queue = z.mailbox.queue ∧
      y.idle = z.idle

namespace Alerts

/-- Nobody need be alerted if the workers are as they were. -/
theorem of_eq (ready : s.ready ⊆ t.ready) (workers : t.workers = s.workers) : Alerts s t :=
  ⟨ready, fun there idle ↦ .inr ⟨_, workers ▸ there, idle, rfl, rfl⟩⟩

theorem refl (s : State) : Alerts s s := of_eq (List.Subset.refl _) rfl

theorem trans (first : Alerts s t) (second : Alerts t u) : Alerts s u where
  ready := List.Subset.trans first.ready second.ready
  workers := by
    intro w z there idle
    rcases second.workers there idle with ready | ⟨y, found, still, queue, deadline⟩
    · exact .inl ready
    · rcases first.workers found still with ready | ⟨x, known, busy, queue', deadline'⟩
      · exact .inl (second.ready ready)
      · exact .inr ⟨x, known, busy, queue'.trans queue, deadline'.trans deadline⟩

/-- Neither workers nor those who are ready are concerned. -/
theorem frame (h : Alerts s t) (ready : u.ready = t.ready) (workers : u.workers = t.workers) :
    Alerts s u :=
  h.trans (of_eq (ready ▸ List.Subset.refl _) workers)

theorem wake (h : Alerts s t) (τ : Task) : Alerts s (t.wake τ) := by
  have workers : (t.wake τ).workers = t.workers := (congrArg State.workers (bare_wake t τ) :)
  refine h.trans (of_eq ?_ workers)
  unfold State.wake
  split
  next => exact List.Subset.refl _
  next =>
    split
    next => exact List.Subset.refl _
    next => exact List.subset_append_left _ _

theorem wakeCallers (h : Alerts s t) (cs : List CallerId) : Alerts s (t.wakeCallers cs) := by
  unfold State.wakeCallers
  induction cs generalizing t with
  | nil => exact h
  | cons c cs ih => exact ih (h.wake _)

theorem wakeWorker (h : Alerts s t) (w : WorkerId) : Alerts s (t.wakeWorker w) := by
  unfold State.wakeWorker
  split
  next =>
    split
    next => exact h.wake _
    next => exact h
  next => exact h

/-- A worker may change if it keeps its mail and its deadline. -/
theorem updateWorker (h : Alerts s t) (w : WorkerId) {f : Worker → Worker}
    (same : ∀ y, t.workers.get? w = some y → (f y).activity = y.activity ∧
      (f y).mailbox.queue = y.mailbox.queue ∧ (f y).idle = y.idle) :
    Alerts s (t.updateWorker w f) := by
  refine h.trans ⟨List.Subset.refl _, fun {v z} there idle ↦ .inr ?_⟩
  have there : (t.workers.update w f).get? v = some z := there
  obtain ⟨y, found, ⟨rfl, rfl⟩ | ⟨-, rfl⟩⟩ := Table.of_update there
  · obtain ⟨activity, queue, deadline⟩ := same y found
    exact ⟨y, found, activity ▸ idle, queue.symm, deadline.symm⟩
  · exact ⟨z, found, idle, rfl, rfl⟩

theorem detach (h : Alerts s t) (key : String) (w : WorkerId) : Alerts s (t.detach key w).2 := by
  unfold State.detach
  split
  next => exact h.frame rfl rfl
  next => exact h

theorem conclude (h : Alerts s t) (c : CallerId) (e : Ending) : Alerts s (t.conclude c e) :=
  h.frame rfl rfl

theorem turnedAway (h : Alerts s t) (c : CallerId) (x : Caller) (w : WorkerId) :
    Alerts s (t.turnedAway c x w) := by
  unfold State.turnedAway
  split
  next => exact h.conclude c _
  next => exact (h.detach x.key w).frame rfl rfl

theorem withdraw (h : Alerts s t) (c : CallerId) (x : Caller) : Alerts s (t.withdraw c x) := by
  unfold State.withdraw
  split
  next w _ =>
    split
    next => exact h
    next y found =>
      dsimp only
      have left : Alerts s (t.updateWorker w fun worker ↦
          { worker with mailbox := (y.mailbox.withdraw c).grant.2 }) := by
        refine h.updateWorker w fun worker found' ↦ ⟨rfl, ?_, rfl⟩
        rw [Option.some.inj (found'.symm.trans found)]
        exact Mailbox.grant_queue _
      have told := left.wakeCallers (y.mailbox.withdraw c).grant.1.toList
      split
      next => exact told.wakeWorker w
      next => exact told
  next => exact h

theorem pend (h : Alerts s t) (c : CallerId) (x : Caller) : Alerts s (t.pend c x) := by
  unfold State.pend
  split
  next =>
    dsimp only
    split
    next =>
      split
      next => exact (h.withdraw c x).conclude c _
      next => exact h.frame rfl rfl
    next =>
      split
      next => exact ((h.frame rfl rfl : Alerts s (t.alarmAfter _).2).withdraw c x).conclude c _
      next => exact h.frame rfl rfl
  next => exact h.frame rfl rfl

/-- A worker that gets mail is called. -/
theorem enqueue (h : Alerts s t) (c : CallerId) (x : Caller) (w : WorkerId)
    (put : Mailbox → Envelope → Mailbox) : Alerts s (t.enqueue c x w put) := by
  refine h.trans ?_
  unfold State.enqueue
  dsimp only
  generalize result : ((t.updateWorker w fun worker ↦
    { worker with mailbox := put worker.mailbox ⟨x.key, x.request, c⟩ }).updateCaller c fun caller ↦
      { caller with phase := .awaiting w }).log (.queued c w) = u
  have ready : u.ready = t.ready := result ▸ rfl
  have workers : u.workers = t.workers.update w fun worker ↦
      { worker with mailbox := put worker.mailbox ⟨x.key, x.request, c⟩ } := result ▸ rfl
  have told : (u.wakeWorker w).workers = u.workers := (congrArg State.workers (bare_wakeWorker u w) :)
  refine ⟨ready ▸ ((Alerts.refl u).wakeWorker w).ready, fun {v z} there idle ↦ ?_⟩
  rw [told] at there
  by_cases here : w = v
  · subst here
    exact .inl (ready_wakeWorker there idle)
  · rw [workers, Table.get?_update, if_neg here] at there
    exact .inr ⟨z, there, idle, rfl, rfl⟩

theorem offer (h : Alerts s t) (c : CallerId) (x : Caller) (w : WorkerId) :
    Alerts s (t.offer c x w) := by
  have logged : Alerts s (t.log (.offered c w)) := h.frame rfl rfl
  unfold State.offer
  dsimp only
  split
  next => exact logged.turnedAway c x w
  next =>
    split
    next => exact logged.turnedAway c x w
    next =>
      split
      next => exact logged.enqueue c x w _
      next =>
        have lined : Alerts s ((t.log (.offered c w)).updateWorker w fun worker ↦
            { worker with mailbox := worker.mailbox.suspend c }) :=
          logged.updateWorker w fun _ _ ↦ ⟨rfl, rfl, rfl⟩
        exact lined.frame rfl rfl

/-- A worker that is created is called. -/
theorem spawn (h : Alerts s t) (key : String) : Alerts s (t.spawn key).2 := by
  refine h.trans ?_
  unfold State.spawn
  dsimp only
  generalize result : State.log _ _ = u
  have ready : u.ready = t.ready := result ▸ rfl
  have workers {v : WorkerId} (other : v ≠ t.workers.size) :
      u.workers.get? v = t.workers.get? v := by
    rw [← result]
    exact (Table.get?_push ..).trans (if_neg other)
  have told : (u.wake (.worker t.workers.size)).workers = u.workers :=
    (congrArg State.workers (bare_wake u _) :)
  refine ⟨ready ▸ ((Alerts.refl u).wake _).ready, fun {v z} there idle ↦ ?_⟩
  have there : (u.wake (.worker t.workers.size)).workers.get? v = some z := there
  rw [told] at there
  by_cases here : v = t.workers.size
  · subst here
    exact .inl (ready_of_called (called_wake u _))
  · exact .inr ⟨z, (workers here).symm.trans there, idle, rfl, rfl⟩

theorem seek (h : Alerts s t) (c : CallerId) (x : Caller) : Alerts s (t.seek c x) := by
  have new : Alerts s (t.offerNew c x) := by
    unfold offerNew
    split
    next => exact h.conclude c _
    next => exact (h.spawn x.key).offer c x _
  have none : Alerts s (t.concludeNotFound c x.key) := h.frame rfl rfl
  unfold State.seek
  split
  next => exact none
  next =>
    split
    next => exact h.conclude c _
    next =>
      split
      next =>
        split
        next => exact new
        next => exact h.offer c x _
      next =>
        split
        next => exact new
        next => exact none

theorem resume (h : Alerts s t) (c : CallerId) (x : Caller) (w : WorkerId) :
    Alerts s (t.resume c x w) := by
  unfold State.resume
  split
  next => exact h.turnedAway c x w
  next =>
    split
    next => exact h.turnedAway c x w
    next =>
      split
      next => exact h.enqueue c x w _
      next => exact h.pend c x

theorem receive (h : Alerts s t) (c : CallerId) (x : Caller) (w : WorkerId) (r : Reply) :
    Alerts s (t.receive c x w r) := by
  unfold State.receive
  split
  next => exact h.conclude c _
  next =>
    split
    next => exact h.conclude c _
    next => exact h.frame rfl rfl
  next =>
    split
    next => exact h.conclude c _
    next =>
      dsimp only
      split
      next =>
        have counted : Alerts s ((t.detach x.key w).2.count fun n ↦
          { n with aborted := n.aborted + 1 }) := (h.detach x.key w).frame rfl rfl
        exact counted.conclude c _
      next => exact (h.detach x.key w).conclude c _

end Alerts

/-- What a caller does in one step alerts the workers. -/
theorem alerts_stepCaller (s : State) (c : CallerId) : Alerts s (s.stepCaller c) := by
  have h := Alerts.refl s
  unfold stepCaller
  split
  next => exact h.frame rfl rfl
  next x _ =>
    split
    next => exact h.frame rfl rfl
    next =>
      split
      next => exact (h.withdraw c x).conclude c _
      next =>
        split
        next =>
          unfold begin
          dsimp only
          split
          next => exact h.frame rfl rfl
          next => exact h.frame rfl rfl
        next =>
          split
          next => exact h.offer c x _
          next => exact h.seek c x
        next => exact h.resume c x _
        next => exact h.pend c x
        next => exact h.receive c x _ _
        next => exact h.frame rfl rfl

end Calling

section Watching

/-- A worker need not do anything yet if that was so before and time has not passed. -/
theorem Slack.congr (h : s.Slack y) (queue : z.mailbox.queue = y.mailbox.queue)
    (deadline : z.idle = y.idle) (now : t.now = s.now) : t.Slack z where
  empty := queue.trans h.empty
  early := by
    rw [now, deadline]
    exact h.early

/-- Whoever is in the schedule stays there, but for a task that rests. -/
theorem Stirs.mem (stirs : Stirs τ s t) (here : υ ∈ s.schedule) (other : υ ≠ τ) :
    υ ∈ t.schedule := by
  induction stirs with
  | refl => exact here
  | tail _ stir ih => exact stir.mem ih fun same ↦ absurd same other

/-- No time passes while a task runs. -/
theorem Stirs.now (stirs : Stirs τ s t) : t.now = s.now := by
  induction stirs with
  | refl => rfl
  | tail _ stir ih =>
    have same := stir.change.now
    exact Eq.trans same ih

/-- A worker that does something leaves the others as they are. -/
theorem Stirs.others (stirs : Stirs (.worker w) s t) (other : v ≠ w) :
    t.workers.get? v = s.workers.get? v := by
  induction stirs with
  | refl => rfl
  | tail _ stir ih =>
    have same := stir.change.others other
    exact Eq.trans same ih

/-- The task that runs goes on or rests. -/
theorem Stirs.goes (stirs : Stirs τ s t) (running : s.running = some τ) :
    t.running = some τ ∨ t.running = none := by
  induction stirs with
  | refl => exact .inl running
  | tail _ stir _ => exact stir.goes

/-- What a worker does leaves every worker in the schedule that has something to do. -/
theorem Watched.stepWorker (h : s.Watched) (running : s.running = some (.worker w)) :
    (s.stepWorker w).Watched := by
  have stirs := stepWorker_stirs running
  have goes : s.running ≠ none := running ▸ Option.some_ne_none _
  generalize result : s.stepWorker w = t at stirs
  intro v z there idle
  by_cases own : v = w
  · subst own
    by_cases rests : t.running = none
    · exact .inr (slack_of_rest result goes rests there idle)
    · refine .inl (List.mem_append_left _ (Option.mem_toList.mpr ?_))
      exact (stirs.goes running).resolve_right rests
  · rw [stirs.others own] at there
    refine (h v z there idle).imp (fun here ↦ stirs.mem here (by simpa using own)) fun slack ↦ ?_
    exact slack.congr rfl rfl stirs.now

/-- What a caller does leaves every worker in the schedule that has something to do. -/
theorem Watched.stepCaller (h : s.Watched) (running : s.running = some (.caller c)) :
    (s.stepCaller c).Watched := by
  have stirs := stepCaller_stirs running
  have alerts := alerts_stepCaller s c
  intro w z there idle
  rcases alerts.workers there idle with ready | ⟨y, found, still, queue, deadline⟩
  · exact .inl (List.mem_append_right _ ready)
  · refine (h w y found still).imp (fun here ↦ stirs.mem here (by simp)) fun slack ↦ ?_
    exact slack.congr queue.symm deadline.symm stirs.now

/-- The next task in turn begins to run. -/
theorem step_of_rest (rests : s.running = none) (taken : s.step = some t) :
    s.schedule ⊆ t.schedule ∧ t.workers = s.workers ∧ t.now = s.now := by
  unfold State.step at taken
  rw [rests] at taken
  dsimp only at taken
  split at taken
  next τ ready queue =>
    obtain rfl := Option.some.inj taken
    refine ⟨?_, rfl, rfl⟩
    rw [State.schedule, rests, queue]
    exact List.Subset.refl _
  next empty =>
    have none : s.schedule = [] := by rw [State.schedule, rests, empty]; rfl
    split at taken
    next =>
      split at taken
      next =>
        obtain rfl := Option.some.inj taken
        exact ⟨none ▸ List.nil_subset _, rfl, rfl⟩
      next => exact absurd taken (by simp)
    next => exact absurd taken (by simp)

/-- Every step leaves every worker in the schedule that has something to do. -/
theorem Watched.step (h : s.Watched) (taken : s.step = some t) : t.Watched := by
  cases running : s.running with
  | none =>
    obtain ⟨more, workers, now⟩ := step_of_rest running taken
    intro w z there idle
    rw [workers] at there
    exact (h w z there idle).imp (more ·) fun slack ↦ slack.congr rfl rfl now
  | some τ =>
    unfold State.step at taken
    rw [running] at taken
    cases τ with
    | worker w => exact Option.some.inj taken ▸ h.stepWorker running
    | caller c => exact Option.some.inj taken ▸ h.stepCaller running

/-- While every task waits no worker has anything to do. -/
theorem Watched.slack (h : s.Watched) (idle : Idle s) (found : s.workers.get? w = some y)
    (looks : y.activity = .idle) : s.Slack y := by
  refine (h w y found looks).resolve_left fun here ↦ ?_
  rw [idle.schedule] at here
  exact absurd here List.not_mem_nil

/-- What the user does at once takes no time. -/
theorem Act.now (act : Act s t) : t.now = s.now := by
  cases act with
  | spawn => exact now_wake _ _
  | @drop c =>
    unfold State.dropCaller
    split
    next => rfl
    next => exact now_wake _ _
  | remove key =>
    cases named : s.find? key with
    | none =>
      unfold State.remove
      rw [named]
      rfl
    | some w => exact (congrArg State.now (bare_remove named) :)
  | shutdown =>
    unfold State.shutdown
    split
    next => rfl
    next =>
      obtain ⟨workers, same, -⟩ :=
        bare_cancelAll (List.range s.workers.size) ({ s with isShutDown := true }.log .shutDown)
      exact (congrArg State.now same :)
  | ledger => rfl

/-- What the user does at once is a use. -/
theorem Act.use (act : Act s t) : Use s.bare t.bare := by
  cases act with
  | spawn key request =>
    have same : (s.spawnCall { key, request }).2.bare = (s.addCaller { key, request }).2.bare :=
      bare_wake _ _
    rw [same]
    exact .dispatch key request
  | drop => exact use_dropCaller s _
  | remove key => exact use_remove s key
  | shutdown => exact use_shutdown s
  | ledger name l => exact .ledger name l

/-- What the user does leaves it so that no worker has anything to do but to leave. -/
theorem Acts.slack (acts : Acts s t)
    (h : ∀ {w y}, s.workers.get? w = some y → y.activity = .idle → s.Slack y)
    (there : t.workers.get? w = some z) (idle : z.activity = .idle) : t.Slack z := by
  induction acts generalizing w z with
  | refl => exact h there idle
  | tail _ act ih =>
    obtain ⟨y, found, rfl | rfl⟩ := act.use.of_worker there
    · exact (ih found idle).congr rfl rfl act.now
    · exact (ih found idle).congr rfl rfl act.now

/-- A worker that looks for something to do is among those for which something is due. -/
theorem mem_alarms_idle (found : s.workers.get? w = some y) (looks : y.activity = .idle)
    (ahead : s.now < y.idle.time) : (y.idle, Task.worker w) ∈ s.alarms := by
  unfold alarms
  dsimp only
  refine List.mem_filter.mpr ⟨List.mem_append_left _ ?_, decide_eq_true ahead⟩
  refine List.mem_filterMap.mpr ⟨(w, y), mem_toList.mpr found, ?_⟩
  dsimp only
  rw [looks]

/-- While every task waits the clock may move as long as no worker is passed over. -/
theorem Watched.pass (h : s.Watched) (idle : Idle s) (workers : t.workers = s.workers)
    (rings : ∀ {alarm w}, (alarm, .worker w) ∈ s.alarms →
      t.now < alarm.time ∨ .worker w ∈ t.schedule) : t.Watched := by
  intro w y there looks
  rw [workers] at there
  have slack := h.slack idle there looks
  rcases rings (mem_alarms_idle there looks slack.early) with early | here
  · exact .inr ⟨slack.empty, early⟩
  · exact .inl here

/-- No worker idles too long in a session. -/
theorem Session.watched {policy : Policy} {connector : Ledger.Connector}
    (h : Session policy connector front s) : s.Watched := by
  induction h with
  | start =>
    intro w y found
    exact absurd ((Table.get?_empty w).symm.trans found) (by simp)
  | step _ taken ih => exact ih.step taken
  | act _ idle acts ih =>
    intro w y there looks
    exact .inr (acts.slack (ih.slack (idle_of_step idle)) there looks)
  | call _ idle acts alone key request ih =>
    intro w y there looks
    exact .inr ((acts.slack (ih.slack (idle_of_step idle)) there looks).congr rfl rfl rfl)
  | finish _ idle ih =>
    refine ih.pass (idle_of_step idle) rfl fun listed ↦ .inl ?_
    exact of_decide_eq_true (List.mem_filter.mp listed).2
  | jump _ idle next ih =>
    exact ih.pass (idle_of_step idle) (congrArg State.workers (bare_jump _ _) :) (jump_rings next)
  | wait _ idle later before ih =>
    refine ih.pass (idle_of_step idle) rfl fun listed ↦ .inl ?_
    obtain ⟨next, due, bound⟩ := nextAlarm_le_of_mem listed
    exact Nat.lt_of_lt_of_le (before next due) bound

end Watching

end Signatory.Service.State
