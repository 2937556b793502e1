import Signatory.Proofs.Service.Admission
import Signatory.Proofs.Service.Passing

/-!
# Sessions

In a session tasks run in their turn, and only while every task waits does the user act or the clock
move. The user may start any number of calls that run on their own, drop callers, remove workers and
so on, and then wait for a call in the foreground. In every session everyone keeps their turn.
-/

namespace Signatory.Service.State

variable {front : List CallerId} {s t : State} {c : CallerId} {time : Nat}

/-- What the user can do at once. -/
inductive Act (s : State) : State → Prop
  | spawn (key : String) (request : Request) : Act s (s.spawnCall { key, request }).2
  | drop {c : CallerId} (known : c < s.callers.size) : Act s (s.dropCaller c)
  | remove (key : String) : Act s (s.remove key).2
  | shutdown : Act s s.shutdown
  | ledger (name : String) (l : Ledger.Memory) : Act s (s.setLedger name l)

/-- Several things that the user does, one after the other. -/
abbrev Acts : State → State → Prop :=
  Relation.ReflTransGen Act

/-- The states of a session, with the callers that have been in the foreground. -/
inductive Session (policy : Policy) (connector : Ledger.Connector) : List CallerId → State → Prop
  | start : Session policy connector [] (start policy connector)
  | step {front : List CallerId} {s t : State} (h : Session policy connector front s)
    (taken : s.step = some t) : Session policy connector front t
  | act {front : List CallerId} {s t : State} (h : Session policy connector front s)
    (idle : s.step = none) (acts : Acts s t) : Session policy connector front t
  | call {front : List CallerId} {s t : State} (h : Session policy connector front s)
    (idle : s.step = none) (acts : Acts s t) (alone : t.foreground = none) (key : String)
    (request : Request) :
    Session policy connector (t.callers.size :: front)
      { (t.addCaller { key, request }).2 with
        foreground := some t.callers.size
        running := some (.caller t.callers.size) }
  | finish {front : List CallerId} {s : State} (h : Session policy connector front s)
    (idle : s.step = none) :
    Session policy connector front { s with foreground := none, isSummoned := false }
  | jump {front : List CallerId} {s : State} {time : Nat} (h : Session policy connector front s)
    (idle : s.step = none) (next : s.nextAlarm? = some time) :
    Session policy connector front (s.jump time)
  | wait {front : List CallerId} {s : State} {time : Nat} (h : Session policy connector front s)
    (idle : s.step = none) (later : s.now ≤ time)
    (before : ∀ next, s.nextAlarm? = some next → time < next) :
    Session policy connector front { s with now := time }

/-- Waking a task takes no time. -/
@[simp] theorem now_wake (s : State) (τ : Task) : (s.wake τ).now = s.now := by
  have same := congrArg State.now (bare_wake s τ)
  exact same

/-- The user starts a call. -/
theorem admits_addCaller (key : String) (request : Request) :
    Admits front (s.callers.size :: front) s (s.addCaller { key, request }).2 where
  use := .dispatch key request
  now := rfl
  wakes := (Wakes.refl s).addCaller key request
  begins := fun _ ↦ .inl List.mem_cons_self
  more := List.subset_cons_self _ _
  front := by
    intro c inside
    rcases List.mem_cons.mp inside with rfl | before
    · refine .inr ⟨rfl, ?_⟩
      change _ < (s.callers.push _).size
      rw [Table.size_push]
      exact Nat.lt_succ_self _
    · exact .inl before

@[simp] theorem callers_wake (s : State) (τ : Task) : (s.wake τ).callers = s.callers := by
  have same := congrArg State.callers (bare_wake s τ)
  exact same

/-- A worker that is told to leave is there as before. -/
theorem workers_cancel (s : State) (w : WorkerId) :
    (s.cancel w).workers = s.workers.update w fun y ↦ { y with cancelled := true } := by
  have same := congrArg State.workers (bare_cancel s w)
  exact same

/-- Taking a worker out of the directory leaves the workers as they are. -/
@[simp] theorem workers_detach (s : State) (key : String) (w : WorkerId) :
    (s.detach key w).2.workers = s.workers := by
  have same := congrArg State.workers (bare_detach s w key)
  exact same

/-- Removing a worker leaves the time and the callers as they are. -/
theorem kept_cancel_detach (s : State) (key : String) (w : WorkerId) :
    ((s.detach key w).2.cancel w).now = s.now ∧
      ((s.detach key w).2.cancel w).callers = s.callers := by
  have told := bare_cancel (s.detach key w).2 w
  have gone := bare_detach s w key
  have now := (congrArg State.now told).trans (congrArg State.now gone :)
  have callers := (congrArg State.callers told).trans (congrArg State.callers gone :)
  exact ⟨now, callers⟩

/-- Once workers have been told to leave, they are known to have been. -/
theorem admitted_of_cancelled {y : Worker} (found : t.workers.get? w = some y)
    (told : y.cancelled = true) : Admitted t (.worker w) :=
  .inl ⟨w, y, rfl, found, told⟩

/-- What the user does that makes no call leaves everyone their turn if it wakes only workers that
are to leave and callers that have been dropped. -/
theorem admits_use (use : Use s.bare t.bare) (now : t.now = s.now) (wakes : Wakes (Admitted t) s t)
    (size : t.callers.size = s.callers.size) : Admits front front s t where
  use := use
  now := now
  wakes := wakes
  begins := fun more ↦ absurd (size ▸ more) (Nat.lt_irrefl _)
  more := List.Subset.refl _
  front := .inl

/-- The user starts a call that runs on its own. -/
theorem admits_spawnCall (h : Orderly front s) (key : String) (request : Request) :
    Admits front front s (s.spawnCall { key, request }).2 := by
  have added := (Wakes.refl (P := Admitted (s.spawnCall { key, request }).2) s).addCaller key request
  have entry : (s.spawnCall { key, request }).2.callers.get? s.callers.size =
      some { key, request } := by
    change ((s.addCaller { key, request }).2.wake _).callers.get? _ = _
    rw [callers_wake]
    change (s.callers.push _).get? _ = _
    exact Table.get?_push_self
  have own : Admitted (s.spawnCall { key, request }).2 (.caller s.callers.size) :=
    .inr ⟨_, _, rfl, entry, .inl rfl⟩
  have woken := added.wake own
  refine ⟨?_, now_wake _ _, woken, fun _ ↦ .inr ?_, List.Subset.refl _, .inl⟩
  · change Use s.bare ((s.addCaller { key, request }).2.wake _).bare
    rw [bare_wake]
    exact .dispatch key request
  · have called := called_wake (s.addCaller { key, request }).2 (.caller s.callers.size)
    refine called.ready fun foremost ↦ ?_
    have inside := (h.foreground (woken.foreground.symm.trans foremost)).1
    exact Nat.lt_irrefl _ (h.known inside)

/-- The user drops a caller. -/
theorem admits_dropCaller (known : c < s.callers.size) : Admits front front s (s.dropCaller c) := by
  have use := use_dropCaller s c
  unfold dropCaller at use ⊢
  split at use
  next past =>
    rw [if_pos past]
    exact admits_use .rest rfl (.refl s) rfl
  next going =>
    rw [if_neg going]
    obtain ⟨x, found⟩ := Option.isSome_iff_exists.mp (Table.get?_isSome.mpr known)
    refine admits_use use (now_wake _ _) (Wakes.wake ?_ ?_) ?_
    · exact (Wakes.refl s).updateCaller c (fun _ ↦ rfl) fun _ _ _ ↦ id
    · refine .inr ⟨c, { x with dropped := true }, rfl, ?_, .inr rfl⟩
      rw [callers_wake]
      exact Table.get?_update_self found
    · rw [callers_wake]
      exact Table.size_update _ _ _

/-- The user removes a worker. -/
theorem admits_remove (key : String) : Admits front front s (s.remove key).2 := by
  have use := use_remove s key
  unfold State.remove at use ⊢
  split at use
  next =>
    dsimp only at use ⊢
    exact admits_use use rfl ((Wakes.refl s).count _) rfl
  next w named =>
    dsimp only at use ⊢
    obtain ⟨now, callers⟩ := kept_cancel_detach s key w
    have workers := workers_cancel (s.detach key w).2 w
    have wakes (P : Task → Prop) (holds : ∀ y, s.workers.get? w = some y → P (.worker w)) :
        Wakes P s ((s.detach key w).2.cancel w) := by
      refine ((Wakes.refl s).detach key w).cancel fun y found ↦ holds y ?_
      rwa [workers_detach] at found
    generalize (s.detach key w).2.cancel w = u at use now callers workers wakes
    refine admits_use use now (((wakes _ fun y found ↦ ?_).log _).count _) (congrArg _ callers)
    refine admitted_of_cancelled (y := { y with cancelled := true }) ?_ rfl
    change u.workers.get? w = _
    rw [workers, workers_detach]
    exact Table.get?_update_self found

/-- The user shuts the service down. -/
theorem admits_shutdown : Admits front front s s.shutdown := by
  have use := use_shutdown s
  unfold State.shutdown at use ⊢
  split at use
  next past =>
    rw [if_pos past]
    exact admits_use .rest rfl (.refl s) rfl
  next serving =>
    rw [if_neg serving]
    obtain ⟨workers, same, told⟩ :=
      bare_cancelAll (List.range s.workers.size) ({ s with isShutDown := true }.log .shutDown)
    have begun (P : Task → Prop) : Wakes P s ({ s with isShutDown := true }.log .shutDown) :=
      (Wakes.refl s).frame (.inl rfl) rfl rfl rfl rfl rfl rfl
    have now := congrArg State.now same
    have callers := congrArg State.callers same
    refine admits_use use now ((begun _).cancelAll fun w inside ↦ ?_) (congrArg Table.size callers)
    have known : w < s.workers.size := List.mem_range.mp inside
    obtain ⟨y, found⟩ := Option.isSome_iff_exists.mp (Table.get?_isSome.mpr known)
    have found : ({ s with isShutDown := true }.log .shutDown).workers.get? w = some y := found
    have entry := told w
    rw [found] at entry
    refine admitted_of_cancelled (y := { y with cancelled := true }) ?_ rfl
    have workers := congrArg (·.workers.get? w) same
    exact workers.trans (entry.trans (if_pos (List.mem_range.mpr known)))

/-- What the user does leaves everyone their turn. -/
theorem Act.admits (h : Orderly front s) (act : Act s t) : Admits front front s t := by
  cases act with
  | spawn key request => exact admits_spawnCall h key request
  | drop known => exact admits_dropCaller known
  | remove key => exact admits_remove key
  | shutdown => exact admits_shutdown
  | ledger name l =>
    exact admits_use (.ledger name l) rfl
      ((Wakes.refl s).frame (.inl rfl) rfl rfl rfl rfl rfl rfl) rfl

/-- While every task waits no worker is about to run. -/
theorem Idle.quiet (idle : Idle s) (h : Orderly front s) : Quiet s where
  rests := idle.rests
  placeless := idle.placeless h
  told := fun ready ↦ absurd (idle.ready ▸ ready) List.not_mem_nil

/-- Several things that the user does while no task runs leave everyone their turn. -/
theorem Acts.orderly (h : Orderly front s) (quiet : Quiet s) (acts : Acts s t) :
    Orderly front t ∧ Quiet t := by
  induction acts with
  | refl => exact ⟨h, quiet⟩
  | tail _ act ih =>
    have admits := act.admits ih.1
    exact ⟨admits.orderly ih.1 ih.2, admits.quiet ih.2⟩

/-- A call in the foreground is over, or nobody waits for it any more. -/
theorem Orderly.finish (h : Orderly front s) (idle : Idle s) :
    Orderly front { s with foreground := none, isSummoned := false } :=
  { h with
    foreground := fun foremost ↦ absurd foremost (by simp)
    placed := fun {w y c} found place ↦ by
      rw [idle.placeless h found] at place
      exact absurd place List.not_mem_nil }

/-- What the clock can reach is told by the time. -/
theorem Within.congr (h : t.Within) (policy : s.policy = t.policy) (now : s.now = t.now) :
    s.Within := by
  unfold Within canReach at h ⊢
  rw [policy, now]
  exact h

/-- The clock moves to the next moment at which something is due. -/
theorem Orderly.jump (h : Orderly front s) (idle : Idle s) (next : s.nextAlarm? = some time)
    (within : (s.jump time).Within) : Orderly front (s.jump time) := by
  have passes := Passes.ring idle next
  have policy := congrArg State.policy (bare_jump s time)
  have now := congrArg State.now (bare_jump s time)
  have rings := passes.orderly h (within.congr (passes.policy.trans policy.symm)
    (passes.now.trans now.symm))
  have rests := passes.rests
  unfold State.jump
  dsimp only
  generalize (s.dueAt time).foldl wake { s with now := time } = u at rings rests ⊢
  split
  next c foremost =>
    split
    next =>
      have leads := rings.lead (c := c) rests (rings.foreground foremost).1
        (rings.foreground foremost).2 (fun d same ↦ Option.some.inj (same.symm.trans foremost)) false
      rw [← foremost] at leads
      exact leads
    next => exact rings
  next => exact rings

/-- A service that nobody has used is in order. -/
theorem orderly_start (policy : Policy) (connector : Ledger.Connector) :
    Orderly [] (start policy connector) := by
  have worker {w : WorkerId} {y : Worker} {p : Prop}
      (found : (start policy connector).workers.get? w = some y) : p :=
    absurd ((Table.get?_empty w).symm.trans found) (by simp)
  have caller {c : CallerId} {x : Caller} {p : Prop}
      (found : (start policy connector).callers.get? c = some x) : p :=
    absurd ((Table.get?_empty c).symm.trans found) (by simp)
  refine {
    owned := owned_start policy connector
    sound := worker
    tries := caller
    once := List.nodup_nil
    foreground := fun foremost ↦ absurd foremost (by simp [start])
    known := fun inside ↦ absurd inside List.not_mem_nil
    real := fun inside ↦ absurd inside List.not_mem_nil
    seeking := caller
    placed := worker
    fresh := fun _ ⟨_, found, _⟩ ↦ caller found
    queued := fun _ _ _ ⟨_, found, _⟩ ↦ caller found
    later := fun _ _ _ _ ⟨_, found, _⟩ ↦ caller found
    calm := fun _ _ _ _ ↦ worker
    cancelled := fun _ ⟨_, found, _⟩ ↦ caller found
    begun := fun inside ↦ absurd inside List.not_mem_nil
    line := fun w ↦ ?_
    turns := worker
    limits := worker
    limited := worker
    tickets := caller
    unlimited := fun _ ↦ caller
    due := worker }
  have none : (start policy connector).workers.get? w = none := Table.get?_empty w
  rw [State.line, none]
  exact List.Pairwise.nil

/-- What the user does at once is part of a run. -/
theorem Act.next (act : Act s t) : Run s t := by
  cases act with
  | spawn key request => exact Run.spawnCall s key request
  | drop => exact .single (.drop s _)
  | remove key => exact .single (.remove s key)
  | shutdown => exact .single (.shutdown s)
  | ledger name l => exact .single (.ledger s name l)

theorem Acts.run (acts : Acts s t) : Run s t := by
  induction acts with
  | refl => exact .refl
  | tail _ act ih => exact ih.trans act.next

namespace Session

variable {policy : Policy} {connector : Ledger.Connector}

/-- What happens in a session is a run. -/
theorem run (h : Session policy connector front s) : Run (State.start policy connector) s := by
  induction h with
  | start => exact .refl
  | step _ taken ih => exact .tail ih (.step taken)
  | act _ _ acts ih => exact ih.trans acts.run
  | call _ _ acts _ key request ih =>
    exact .tail (.tail (ih.trans acts.run) (.dispatch _ key request)) (.schedule rfl)
  | finish _ _ ih => exact .tail ih (.schedule rfl)
  | jump _ _ next ih => exact ih.trans (Run.jump next)
  | wait _ _ later _ ih => exact .tail ih (.wait _ later)

theorem reachable (h : Session policy connector front s) : s.Reachable :=
  ⟨policy, connector, h.run⟩

/-- A session goes on while any task is ready. -/
theorem runReady (h : Session policy connector front s) (fuel : Nat) :
    Session policy connector front (State.runReady fuel s) := by
  induction fuel generalizing s with
  | zero => exact h
  | succ fuel ih =>
    unfold State.runReady
    split
    next => exact h
    next t taken => exact ih (h.step taken)

end Session

theorem Use.now_le (use : Use s t) : s.now ≤ t.now := by
  cases use with
  | wait later => exact later
  | _ => exact Nat.le_refl _

/-- Time only passes. -/
theorem Next.now_le (next : Next s t) : s.now ≤ t.now := by
  rcases next.use with ⟨τ, changes⟩ | use
  · change s.bare.now ≤ t.bare.now
    exact Changes.preserve (P := fun u ↦ s.bare.now ≤ u.now)
      (fun le change ↦ change.now ▸ le) (Nat.le_refl _) changes
  · exact use.now_le

theorem Run.now_le (run : Run s t) : s.now ≤ t.now := by
  induction run with
  | refl => exact Nat.le_refl _
  | tail _ next ih => exact Nat.le_trans ih next.now_le

/-- What the clock can reach later it could reach before. -/
theorem Within.before (within : t.Within) (run : Run s t) : s.Within := by
  intro limit bound
  rw [← run.later.policy] at bound
  refine (within limit bound).imp id fun reach ↦ ?_
  have later := run.now_le
  unfold canReach at reach ⊢
  simp only [decide_eq_true_eq] at reach ⊢
  omega

/-- Everyone keeps their turn in a session, as long as the clock can reach the limits of those who
wait. -/
theorem Session.orderly {policy : Policy} {connector : Ledger.Connector}
    (h : Session policy connector front s) (within : s.Within) : Orderly front s := by
  induction h with
  | start => exact orderly_start policy connector
  | step _ taken ih => exact (ih (within.before (.single (.step taken)))).step taken
  | act _ idle acts ih =>
    have before := ih (within.before acts.run)
    exact (acts.orderly before ((idle_of_step idle).quiet before)).1
  | @call front s t _ idle acts alone key request ih =>
    have calls : Run t { (t.addCaller { key, request }).2 with
        foreground := some t.callers.size, running := some (.caller t.callers.size) } :=
      .tail (.single (.dispatch t key request)) (.schedule rfl)
    have before := ih (within.before (acts.run.trans calls))
    obtain ⟨orderly, quiet⟩ := acts.orderly before ((idle_of_step idle).quiet before)
    have added : Admits front (t.callers.size :: front) t _ := admits_addCaller key request
    have still : Task.caller t.callers.size ∉ t.ready := fun ready ↦
      Nat.lt_irrefl _ (orderly.real (List.mem_append_right _ ready))
    exact (added.orderly orderly quiet).lead quiet.rests List.mem_cons_self still
      (fun d foremost ↦ absurd (alone.symm.trans foremost) (by simp)) t.isSummoned
  | finish _ idle ih =>
    exact (ih within).finish (idle_of_step idle)
  | jump _ idle next ih =>
    exact (ih (within.before (Run.jump next))).jump (idle_of_step idle) next within
  | wait _ idle later before ih =>
    have passes := Passes.wait (idle_of_step idle) later before
    exact passes.orderly (ih (within.before (.single (.wait _ later)))) within

/-- The clock can reach every limit if there is none. -/
theorem Session.within {policy : Policy} {connector : Ledger.Connector}
    (h : Session policy connector front s) (unlimited : policy.requestTimeout = none) :
    s.Within := by
  intro limit bound
  rw [h.run.later.policy] at bound
  exact absurd (unlimited.symm.trans bound) (by simp)

/-- What is due is due as it is listed, if the tickets are in order. -/
theorem dueAt_eq_listed
    (order : (s.alarms.filter (·.1.time = time)).Pairwise (·.1.ticket ≤ ·.1.ticket)) :
    s.dueAt time = (s.alarms.filter (·.1.time = time)).map (·.2) := by
  rw [dueAt, List.mergeSort_of_pairwise]
  exact order.imp fun le ↦ decide_eq_true le

/-- Moving the clock wakes what is due as it is listed, if the tickets are in order and no call is
in the foreground. -/
theorem jump_eq_listed (alone : s.foreground = none)
    (order : (s.alarms.filter (·.1.time = time)).Pairwise (·.1.ticket ≤ ·.1.ticket)) :
    s.jump time =
      ((s.alarms.filter (·.1.time = time)).map (·.2)).foldl wake { s with now := time } := by
  have still : (((s.alarms.filter (·.1.time = time)).map (·.2)).foldl wake
      { s with now := time }).foreground = none := by
    generalize (s.alarms.filter (·.1.time = time)).map (·.2) = due
    have woken : Wakes (fun _ ↦ True) { s with now := time } (due.foldl wake _) :=
      (Wakes.refl _).wakeAll fun _ _ ↦ trivial
    exact woken.foreground.trans alone
  unfold jump
  dsimp only
  rw [dueAt_eq_listed order, still]

theorem Session.jump_listed {policy : Policy} {connector : Ledger.Connector}
    (h : Session policy connector front s) (idle : s.step = none)
    (next : s.nextAlarm? = some time) (alone : s.foreground = none)
    (order : (s.alarms.filter (·.1.time = time)).Pairwise (·.1.ticket ≤ ·.1.ticket)) :
    Session policy connector front
      (((s.alarms.filter (·.1.time = time)).map (·.2)).foldl wake { s with now := time }) :=
  jump_eq_listed alone order ▸ h.jump idle next

/-- The clock moves while a call in the foreground waits for something else. -/
theorem Session.jump_behind {policy : Policy} {connector : Ledger.Connector}
    (h : Session policy connector front s) (idle : s.step = none)
    (next : s.nextAlarm? = some time)
    (order : (s.alarms.filter (·.1.time = time)).Pairwise (·.1.ticket ≤ ·.1.ticket))
    (apart : (((s.alarms.filter (·.1.time = time)).map (·.2)).foldl wake
      { s with now := time }).isSummoned = false) :
    Session policy connector front
      (((s.alarms.filter (·.1.time = time)).map (·.2)).foldl wake { s with now := time }) := by
  have moved : s.jump time =
      ((s.alarms.filter (·.1.time = time)).map (·.2)).foldl wake { s with now := time } := by
    unfold State.jump
    dsimp only
    rw [dueAt_eq_listed order, apart]
    split <;> rfl
  exact moved ▸ h.jump idle next

/-- A connector for trials: it takes a tenth of a second for the endpoint `slow`, and no time for
others. -/
def trialConnector : Ledger.Connector := fun endpoint ↦
  ⟨if endpoint = "slow" then 100 else 0, .place (.memory "main")⟩

/-- A request for trials, to take on an identity at an endpoint. -/
def trialGenerate (endpoint : String) : Request :=
  .generate { endpoint, privateKey := ⟨List.replicate 32 0x11, rfl⟩ }

/-- A request for trials, to sign the creation of a contract. -/
def trialSign : Request :=
  .sign ⟨none, 1, 21000, [0], none⟩

/-- What some calls of a trial come to that begin one after the other. -/
def trialCalls (steps : Nat) (requests : List Request) : State :=
  runReady steps (requests.foldl (fun s request ↦ (s.spawnCall { key := "treasury", request }).2)
    (start {} trialConnector))

theorem run_trialCalls (steps : Nat) (requests : List Request) :
    Run (start {} trialConnector) (trialCalls steps requests) := by
  have called (s : State) :
      Run s (requests.foldl (fun s request ↦ (s.spawnCall { key := "treasury", request }).2)
        s) := by
    induction requests generalizing s with
    | nil => exact .refl
    | cons request requests ih => exact (Run.spawnCall s "treasury" request).trans (ih _)
  exact (called _).trans (Run.runReady steps _)

end Signatory.Service.State
