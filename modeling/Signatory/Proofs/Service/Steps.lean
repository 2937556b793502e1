import Signatory.Proofs.Service.Changes
import Signatory.Proofs.Service.Schedule

/-!
# What one step does

A step makes one of the changes that are listed, or two when a worker is created for a request or an
envelope reaches a worker that it is not meant for. `Stir` says besides whom a change wakes: callers
whose envelopes the worker has, and callers who wait for a place that is reserved for them or is
never to come; and that a caller only rests when there is nothing for it to do.
-/

namespace Signatory.Service

/-- The envelope in the hand of a worker. -/
def Activity.hand? : Activity → Option Envelope
  | .connecting e _ _ _ => some e
  | .syncing e _ _ => some e
  | _ => none

/-- Whether a worker has left or died. -/
def Activity.isOver : Activity → Bool
  | .left _ | .died => true
  | _ => false

namespace Worker

/-- The envelopes that a worker has, the one in its hand first. -/
def envelopes (y : Worker) : List Envelope :=
  y.activity.hand?.toList ++ y.mailbox.queue

/-- The callers whose envelopes a worker has. -/
def held (y : Worker) : List CallerId :=
  y.envelopes.map (·.caller)

/-- A worker that looks for something to do has nothing in its hand. -/
theorem envelopes_of_idle {y : Worker} (idle : y.activity = .idle) :
    y.envelopes = y.mailbox.queue := by
  rw [envelopes, idle]
  rfl

/-- What is in the mailbox of a worker, the worker has. -/
theorem held_of_queue {y : Worker} {e : Envelope} (queued : e ∈ y.mailbox.queue) :
    e.caller ∈ y.held :=
  List.mem_map.mpr ⟨e, List.mem_append_right _ queued, rfl⟩

/-- What is in the hand of a worker, the worker has. -/
theorem held_of_hand {y : Worker} {e : Envelope} (hand : y.activity.hand? = some e) :
    e.caller ∈ y.held :=
  List.mem_map.mpr ⟨e, List.mem_append_left _ (by simp [hand]), rfl⟩

end Worker

namespace State

variable {s t u : State} {τ : Task} {w : WorkerId} {worker y z : Worker} {c d : CallerId}
  {caller x : Caller} {e : Envelope} {rest : Mailbox} {deadline : Alarm} {reason : ExitReason}

/-- Why a caller is woken by someone else: a worker has its envelope, or it waits for a place that
is now reserved or will never be. -/
def Rouses (s t : State) (c : CallerId) : Prop :=
  (∃ w y, s.workers.get? w = some y ∧ c ∈ y.held) ∨
    ∃ w y, s.workers.get? w = some y ∧ c ∈ y.mailbox.waiting ∧
      ∀ z, t.workers.get? w = some z → z.mailbox.closed = true ∨ c ∈ z.mailbox.reserved

/-- There is nothing for a worker to do: it has not been told to leave while its hand is empty, and
what it waits for lies ahead. -/
structure Calm (s : State) (y : Worker) : Prop where
  kept : y.activity = .idle → y.cancelled = false
  ahead : ∀ alarm, y.activity.alarm? = some alarm → s.now < alarm.time

/-- There is nothing for a caller to do: it has decided where to go and has no reply; if it waits
for a place, the mailbox is open, it has none, and it has not waited too long and knows when it will
have. -/
structure Patient (s : State) (c : CallerId) (x : Caller) : Prop where
  begun : x.phase ≠ .fresh
  decided : x.phase ≠ .seeking
  silent : ∀ w r, x.phase ≠ .replied w r
  opened : ∀ w, x.phase = .suspended w → s.isClosed w = false
  placeless : ∀ w y, x.phase = .suspended w → s.workers.get? w = some y → c ∉ y.mailbox.reserved ∧
    (x.direct = none → ∀ limit, s.policy.requestTimeout = some limit →
      ∃ alarm, x.limit = some alarm ∧ s.now < alarm.time)

/-- A task only rests when there is nothing for it to do. -/
def Rests (s : State) : Task → Prop
  | .worker w => ∀ y, s.workers.get? w = some y → s.Calm y
  | .caller c => ∀ x, s.callers.get? c = some x → s.Patient c x

/-- Workers that are woken are there. -/
def Summons (s t : State) : Prop :=
  ∀ w, .worker w ∈ t.ready → .worker w ∈ s.ready ∨ w < s.workers.size ∨ w < t.workers.size

/-- The task that runs makes a change and wakes others, and goes on or rests. -/
structure Stir (s : State) (τ : Task) (t : State) : Prop where
  running : s.running = some τ
  change : Change s.bare τ t.bare
  wakes : Wakes (fun υ ↦ (υ ≠ τ ∨ t.running = none) ∧ ∀ c, υ = .caller c → Rouses s t c) s t
  summons : Summons s t
  rests : t.running = none → t.Rests τ

/-- What a task does in one step. -/
abbrev Stirs (τ : Task) : State → State → Prop :=
  Relation.ReflTransGen (Stir · τ)

/-- What a worker does in one step: one thing, or two if an envelope reaches it that is meant for
another. -/
def Works (s : State) (w : WorkerId) (worker : Worker) (t : State) : Prop :=
  Stir s (.worker w) t ∨
    (∃ e ∈ worker.envelopes, e.key ≠ worker.key) ∧ Stirs (.worker w) s t

theorem Works.stirs (works : Works s w worker t) : Stirs (.worker w) s t := by
  rcases works with stir | ⟨-, stirs⟩
  · exact .single stir
  · exact stirs

/-- Workers that are woken are there if only such workers are woken. -/
theorem Wakes.summons
    (wakes : Wakes (fun υ ↦ ∀ w, υ = .worker w → w < s.workers.size ∨ w < t.workers.size) s t) :
    Summons s t := by
  intro w ready
  obtain ⟨woken, grown, -, present⟩ := wakes.ready
  rw [grown] at ready
  exact (List.mem_append.mp ready).imp_right fun new ↦ (present _ new).2.2 w rfl

/-- A task that does nothing may rest. -/
theorem Stir.idle (running : s.running = some τ) (rests : s.rest.Rests τ) : Stir s τ s.rest where
  running := running
  change := .rest
  wakes := (Wakes.refl s).rest
  summons := fun _ ready ↦ .inl ready
  rests := fun _ ↦ rests

@[simp] theorem running_deliver (s : State) (w : WorkerId) (c : CallerId) (r : Reply) :
    (s.deliver w c r).running = s.running := by
  unfold deliver
  split
  next => exact running_wake _ _
  next => rfl

@[simp] theorem running_respond (s : State) (w : WorkerId) (e : Envelope) (r : Result) :
    (s.respond w e r).running = s.running :=
  running_deliver _ _ _ _

@[simp] theorem running_complete (s : State) (w : WorkerId) (e : Envelope)
    (done : Result × Option Identity) : (s.complete w e done).running = s.running :=
  running_respond _ _ _ _

/-- A worker that accepts a request goes on. -/
theorem running_handle (s : State) (w : WorkerId) (y : Worker) (e : Envelope) :
    (s.handle w y e).running = s.running := by
  unfold handle
  dsimp only
  split
  next => rfl
  next => exact running_complete _ _ _ _
  next => exact running_complete _ _ _ _
  next =>
    split
    next => exact running_complete _ _ _ _
    next => rfl

@[simp] theorem running_grantPlace (s : State) (w : WorkerId) :
    (s.grantPlace w).running = s.running := by
  unfold grantPlace
  split
  next => rfl
  next =>
    split
    next => rfl
    next => exact running_wake _ _

section Workers

/-- A worker wakes callers only. -/
theorem Stir.of_worker (running : s.running = some (.worker w))
    (change : Change s.bare (.worker w) t.bare)
    (wakes : ∀ P : Task → Prop, (∀ c, Rouses s t c → P (.caller c)) → Wakes P s t)
    (rests : t.running = none → t.Rests (.worker w)) : Stir s (.worker w) t where
  running := running
  change := change
  wakes := wakes _ fun _ rouses ↦
    ⟨.inl Task.noConfusion, fun _ same ↦ Task.caller.inj same ▸ rouses⟩
  summons := (wakes _ fun _ _ _ same ↦ Task.noConfusion same).summons
  rests := rests

/-- There is nothing to do for a worker that is over. -/
theorem rests_of_over (past : ∀ y, t.workers.get? w = some y → y.activity.isOver = true) :
    t.Rests (.worker w) := by
  intro y found
  have past := past y found
  refine ⟨fun idle ↦ ?_, fun alarm waits ↦ ?_⟩
  · rw [idle] at past
    exact absurd past Bool.false_ne_true
  · cases activity : y.activity with
    | left => rw [activity] at waits; exact absurd waits (by simp [Activity.alarm?])
    | died => rw [activity] at waits; exact absurd waits (by simp [Activity.alarm?])
    | _ => rw [activity] at past; exact absurd past Bool.false_ne_true

theorem rouses_of_queue (found : s.workers.get? w = some worker)
    (queued : e ∈ worker.mailbox.queue) : Rouses s t e.caller :=
  .inl ⟨w, worker, found, Worker.held_of_queue queued⟩

theorem rouses_of_hand (found : s.workers.get? w = some worker)
    (hand : worker.activity.hand? = some e) : Rouses s t e.caller :=
  .inl ⟨w, worker, found, Worker.held_of_hand hand⟩

/-- Who waits for a place in a mailbox that is closed will never have it. -/
theorem rouses_of_closed (found : s.workers.get? w = some worker)
    (waits : c ∈ worker.mailbox.waiting)
    (closed : ∀ z, t.workers.get? w = some z → z.mailbox.closed = true) : Rouses s t c :=
  .inr ⟨w, worker, found, waits, fun z there ↦ .inl (closed z there)⟩

/-- The mailbox of a worker that has left is closed. -/
theorem closed_leave (there : (s.leave w y reason).workers.get? w = some z) :
    z.mailbox.closed = true := by
  have there : (s.leave w y reason).bare.workers.get? w = some z := there
  rw [bare_leave] at there
  obtain ⟨old, -, rfl⟩ := Table.of_update_self there
  rfl

theorem over_leave (there : (s.leave w y reason).workers.get? w = some z) :
    z.activity.isOver = true := by
  have there : (s.leave w y reason).bare.workers.get? w = some z := there
  rw [bare_leave] at there
  obtain ⟨old, -, rfl⟩ := Table.of_update_self there
  rfl

/-- The mailbox of a worker that has died is closed. -/
theorem closed_die (there : (s.die w y e).workers.get? w = some z) : z.mailbox.closed = true := by
  have there : (s.die w y e).bare.workers.get? w = some z := there
  rw [bare_die] at there
  obtain ⟨old, -, rfl⟩ := Table.of_update_self there
  rfl

theorem over_die (there : (s.die w y e).workers.get? w = some z) : z.activity.isOver = true := by
  have there : (s.die w y e).bare.workers.get? w = some z := there
  rw [bare_die] at there
  obtain ⟨old, -, rfl⟩ := Table.of_update_self there
  rfl

/-- A worker that leaves. -/
theorem leave_stir (running : s.running = some (.worker w)) (found : s.workers.get? w = some worker)
    (key : y.key = worker.key) (mailbox : y.mailbox = worker.mailbox)
    (idle : worker.activity = .idle) (cause : s.bare.Leaves w worker reason) :
    Stir s (.worker w) (s.leave w y reason) := by
  refine .of_worker running (leave_change found key mailbox idle cause) (fun P holds ↦ ?_)
    fun _ ↦ rests_of_over fun z there ↦ over_leave there
  apply (Wakes.refl s).leave reason
  · intro x found'
    obtain rfl := Option.some.inj (found.symm.trans found')
    rw [mailbox]
    exact List.Subset.refl _
  · intro c waits
    exact holds c (rouses_of_closed found (mailbox ▸ waits) fun z there ↦ closed_leave there)
  · intro e queued
    exact holds e.caller (rouses_of_queue found (mailbox ▸ queued))

/-- A worker goes on with the envelope in its hand and answers it. -/
theorem complete_stir {ledgers : List (String × Ledger.Memory)} {done : Result × Option Identity}
    (running : s.running = some (.worker w)) (found : s.workers.get? w = some worker)
    (finishes : s.bare.Finishes worker e done ledgers)
    (hand : worker.activity.hand? = some e) (effect : u.bare = { s.bare with ledgers })
    (goes : u.running = s.running) (woken : ∀ P, Wakes P s u) :
    Stir s (.worker w) (u.complete w e done) := by
  have known : s.bare.workers.get? w = some worker := found
  apply Stir.of_worker running
  · rw [bare_complete, effect, Table.update_eq_set known]
    exact .finish known finishes
  · intro P holds
    exact (woken P).complete (holds e.caller (rouses_of_hand found hand)) done
  · intro rests
    rw [running_complete, goes, running] at rests
    exact absurd rests (by simp)

/-- A worker begins another lookup. -/
theorem beginLookup_stir {attempt : Nat} {alarm : Alarm} {i j : Identity}
    (running : s.running = some (.worker w)) (found : s.workers.get? w = some worker)
    (syncing : worker.activity = .syncing e attempt alarm) (due : alarm.time ≤ s.now)
    (known : worker.identity = some i)
    (undecided : handleAnswer s.policy.sync i attempt (s.lookup i.ledger i.address).1 = (none, j)) :
    Stir s (.worker w)
      ((s.lookup i.ledger i.address).2.beginLookup w e (attempt + 1) s.policy.sync.backoff) := by
  have found : s.bare.workers.get? w = some worker := found
  have clock : (s.lookup i.ledger i.address).2.now = s.now := by cases i.ledger <;> rfl
  apply Stir.of_worker running
  · simp only [bare_beginLookup, bare_lookup]
    rw [Table.update_eq_set found]
    rw [← lookup_bare] at undecided
    exact .again found syncing due known undecided (after_congr clock _)
  · intro P holds
    exact ((Wakes.refl s).lookup _ _).beginLookup e _ _
  · intro rests
    have goes : (s.lookup i.ledger i.address).2.running = s.running := by cases i.ledger <;> rfl
    exact absurd ((goes.trans running).symm.trans rests) (by simp)

/-- The envelope that a worker takes is in its mailbox. -/
theorem Takes.inside (takes : Takes s w worker e rest) : e ∈ worker.mailbox.queue := by
  rw [Mailbox.queue_of_pop? takes.popped]
  exact List.mem_cons_self

section Taking

variable (running : s.running = some (.worker w)) (takes : s.bare.Takes w worker e rest)
  (woken : ∀ P : Task → Prop, (∀ c, rest.grant.1 = some c → P (.caller c)) → Wakes P s u)

include takes

/-- Who is given the place of an envelope waits for it. -/
theorem rouses_of_grant (granted : rest.grant.1 = some c)
    (kept : ∀ z, t.workers.get? w = some z →
      z.mailbox.closed = true ∨ z.mailbox = rest.grant.2) : Rouses s t c := by
  obtain ⟨waits, place⟩ := Mailbox.waiting_of_grant granted
  rw [Mailbox.waiting_of_pop? takes.popped] at waits
  refine .inr ⟨w, worker, takes.found, waits, fun z there ↦ ?_⟩
  rcases kept z there with closed | mailbox
  · exact .inl closed
  · exact .inr (mailbox.symm ▸ place)

include running woken

/-- A worker that takes an envelope wakes its caller and the one who gets the place. -/
theorem Stir.of_take (change : Change s.bare (.worker w) t.bare)
    (kept : ∀ z, t.workers.get? w = some z →
      z.mailbox.closed = true ∨ z.mailbox = rest.grant.2) (goes : t.running ≠ none)
    (onward : ∀ P : Task → Prop, P (.caller e.caller) → Wakes P s u → Wakes P s t) :
    Stir s (.worker w) t := by
  refine .of_worker running change (fun P holds ↦ ?_) fun rests ↦ absurd rests goes
  apply onward P (holds e.caller (rouses_of_queue takes.found takes.inside))
  exact woken P fun c granted ↦ holds c (rouses_of_grant takes granted kept)

end Taking

/-- A worker that begins to work on a request keeps its mailbox. -/
theorem mailbox_handle (there : (u.handle w y e).workers.get? w = some z) :
    ∃ x, u.workers.get? w = some x ∧ z.mailbox = x.mailbox := by
  have kept {f : Worker → Worker} (same : ∀ x, (f x).mailbox = x.mailbox)
      (here : (u.bare.workers.update w f).get? w = some z) :
      ∃ x, u.workers.get? w = some x ∧ z.mailbox = x.mailbox := by
    obtain ⟨x, found, rfl⟩ := Table.of_update_self here
    exact ⟨x, found, same x⟩
  have there : (u.handle w y e).bare.workers.get? w = some z := there
  unfold handle at there
  dsimp only at there
  split at there
  next =>
    rw [bare_beginConnect] at there
    exact kept (by exact fun _ ↦ rfl) there
  next =>
    rw [bare_complete] at there
    exact kept (by exact fun _ ↦ rfl) there
  next =>
    rw [bare_complete] at there
    exact kept (by exact fun _ ↦ rfl) there
  next =>
    split at there
    next =>
      rw [bare_complete] at there
      exact kept (by exact fun _ ↦ rfl) there
    next =>
      rw [bare_beginLookup] at there
      exact kept (by exact fun _ ↦ rfl) there

/-- What a worker does with an envelope that it accepts, or refuses because it is meant for
another. -/
theorem accept_works (running : s.running = some (.worker w)) (takes : s.bare.Takes w worker e rest)
    (waits : s.bare.awaits e.caller w = true)
    (rearmed : deadline.time = s.bare.now + s.bare.policy.idleTimeout)
    (taken : u.bare = { s.bare with
      workers := s.bare.workers.set w
        { worker with mailbox := rest.grant.2, idle := deadline } })
    (goes : u.running = some (.worker w))
    (woken : ∀ P : Task → Prop, (∀ c, rest.grant.1 = some c → P (.caller c)) → Wakes P s u) :
    Works s w worker (u.accept w { worker with mailbox := rest.grant.2 } e) := by
  have now : u.bare.workers.get? w =
      some { worker with mailbox := rest.grant.2, idle := deadline } := by
    rw [taken]
    exact Table.get?_set_self takes.found
  unfold accept
  split
  next own =>
    apply Or.inl
    apply Stir.of_take running takes woken (handle_change ⟨takes, waits, own, rearmed⟩ taken)
    · intro z there
      obtain ⟨x, found, mailbox⟩ := mailbox_handle there
      obtain rfl := Option.some.inj (now.symm.trans found)
      exact .inr mailbox
    · rw [running_handle, goes]
      exact Option.some_ne_none _
    · exact fun P holds woken ↦ woken.handle holds _
  next foreign =>
    have answers : Stir s (.worker w)
        (u.respond w e (.error (.violation (.misrouted e.key worker.key)))) := by
      apply Stir.of_take running takes woken
      · rw [bare_respond, taken]
        exact .misroute takes waits foreign
      · intro z there
        have there : (u.respond w e (.error (.violation
            (.misrouted e.key worker.key)))).bare.workers.get? w = some z := there
        rw [bare_respond] at there
        obtain rfl := Option.some.inj (now.symm.trans there)
        exact .inr rfl
      · rw [running_respond, goes]
        exact Option.some_ne_none _
      · exact fun P holds woken ↦ woken.respond holds _
    have same : (u.respond w e (.error (.violation (.misrouted e.key worker.key)))).running =
        u.running := running_respond _ _ _ _
    generalize answered : u.respond w e (.error (.violation (.misrouted e.key worker.key))) = v
      at answers same
    have effect := (congrArg bare answered).symm
    rw [bare_respond, taken] at effect
    have found : v.bare.workers.get? w =
        some { worker with mailbox := rest.grant.2, idle := deadline } := by
      rw [effect]
      exact Table.get?_set_self takes.found
    have recorded : ⟨v.bare.now, .answered e.caller w
        (.error (.violation (.misrouted e.key worker.key)))⟩ ∈ v.bare.journal := by
      rw [effect]
      exact List.mem_cons_self
    have leaves := leave_stir (s := v) (y := { worker with mailbox := rest.grant.2 })
      (same.trans goes) found rfl rfl
      takes.idle (.misrouted foreign recorded)
    exact .inr ⟨⟨e, List.mem_append_right _ takes.inside, foreign⟩, .tail (.single answers) leaves⟩

/-- A worker dies if it takes an envelope and the clock cannot reach its deadline. -/
theorem overreach_stir (running : s.running = some (.worker w))
    (takes : s.bare.Takes w worker e rest)
    (taken : u.bare = { s.bare with
      workers := s.bare.workers.set w { worker with mailbox := rest.grant.2 } })
    (woken : ∀ P : Task → Prop, (∀ c, rest.grant.1 = some c → P (.caller c)) → Wakes P s u)
    (waits : s.bare.awaits e.caller w = true)
    (far : s.bare.canReach s.bare.policy.idleTimeout = false) :
    Stir s (.worker w) (u.die w { worker with mailbox := rest.grant.2 } e) := by
  apply Stir.of_worker running
  · rw [bare_die, taken, Table.update_set]
    have death := Change.die takes.found (.outOfReach takes waits far)
    exact death
  · intro P holds
    have waiting {c : CallerId} (waits : c ∈ rest.waiting) : P (.caller c) := by
      rw [Mailbox.waiting_of_pop? takes.popped] at waits
      exact holds c (rouses_of_closed takes.found waits fun z there ↦ closed_die there)
    apply (woken P fun c granted ↦ waiting (Mailbox.waiting_of_grant granted).1).die
    · intro z found
      have found : u.bare.workers.get? w = some z := found
      rw [taken] at found
      obtain rfl := Table.eq_of_set takes.found found
      exact List.Subset.refl _
    · exact holds e.caller (rouses_of_queue takes.found takes.inside)
    · exact fun c waits ↦ waiting (Mailbox.grant_waiting.subset waits)
    · intro f queued
      rw [Mailbox.grant_queue] at queued
      have queued : f ∈ worker.mailbox.queue := by
        rw [Mailbox.queue_of_pop? takes.popped]
        exact List.mem_cons_of_mem e queued
      exact holds f.caller (rouses_of_queue takes.found queued)
  · exact fun _ ↦ rests_of_over fun z there ↦ over_die there

/-- What a worker does with an envelope that it has taken out of its mailbox. -/
theorem take_works (running : s.running = some (.worker w)) (takes : s.bare.Takes w worker e rest)
    (taken : u.bare = { s.bare with
      workers := s.bare.workers.set w { worker with mailbox := rest.grant.2 } })
    (goes : u.running = some (.worker w))
    (woken : ∀ P : Task → Prop, (∀ c, rest.grant.1 = some c → P (.caller c)) → Wakes P s u) :
    Works s w worker (u.take w { worker with mailbox := rest.grant.2 } e) := by
  have asks : u.awaits e.caller w = s.bare.awaits e.caller w := by
    rw [awaits_eq, awaits_eq, taken]
    rfl
  have reach : u.bare.canReach u.bare.policy.idleTimeout =
      s.bare.canReach s.bare.policy.idleTimeout := by
    rw [taken]
    rfl
  unfold take
  split
  next gone =>
    rw [asks] at gone
    apply Or.inl
    apply Stir.of_take running takes woken
    · rw [bare_log, taken]
      exact .skip takes (by simpa using gone)
    · intro z there
      have there : u.bare.workers.get? w = some z := there
      rw [taken] at there
      obtain rfl := Table.eq_of_set takes.found there
      exact .inr rfl
    · change u.running ≠ none
      rw [goes]
      exact Option.some_ne_none _
    · exact fun P holds woken ↦ woken.log _
  next waits =>
    rw [asks] at waits
    have waits : s.bare.awaits e.caller w = true := by simpa using waits
    split
    next far =>
      rw [Bool.not_eq_true'] at far
      exact .inl (overreach_stir running takes taken woken waits (reach.symm.trans far))
    next near =>
      rw [Bool.not_eq_true', Bool.not_eq_false] at near
      have clock : u.bare.now = s.bare.now := by rw [taken]
      have policy : u.bare.policy = s.bare.policy := by rw [taken]
      have rearmed : (u.alarmAfter u.policy.idleTimeout).1.time =
          s.bare.now + s.bare.policy.idleTimeout := by
        change u.after u.policy.idleTimeout = _
        rw [after, near, if_pos rfl, ← clock, ← policy]
        rfl
      refine accept_works running takes waits rearmed ?_ goes fun P holds ↦
        ((woken P holds).alarmAfter u.policy.idleTimeout).act w (by exact fun _ ↦ rfl)
      rw [bare_updateWorker]
      change ({ u.bare with workers := u.bare.workers.update w _ } : State) = _
      rw [taken, Table.update_set]
      rfl

/-- What a worker does when it looks for something to do. -/
theorem look_works (running : s.running = some (.worker w))
    (found : s.workers.get? w = some worker) (idle : worker.activity = .idle) :
    Works s w worker (s.look w worker) := by
  unfold look
  split
  next cancelled =>
    split
    next closing =>
      exact .inl (leave_stir running found rfl rfl idle (.shutdown cancelled closing))
    next serving =>
      rw [Bool.not_eq_true] at serving
      exact .inl (leave_stir running found rfl rfl idle (.removed cancelled serving))
  next kept =>
    rw [Bool.not_eq_true] at kept
    split
    next e rest popped =>
      have takes : s.bare.Takes w worker e rest := ⟨found, idle, kept, popped⟩
      have taken : ((s.updateWorker w fun y ↦ { y with mailbox := rest }).grantPlace w).bare =
          { s.bare with
            workers := s.bare.workers.set w { worker with mailbox := rest.grant.2 } } := by
        rw [bare_grantPlace, bare_updateWorker, Table.update_eq_set takes.found, Table.update_set]
      have woken (P : Task → Prop) (holds : ∀ c, rest.grant.1 = some c → P (.caller c)) :
          Wakes P s ((s.updateWorker w fun y ↦ { y with mailbox := rest }).grantPlace w) := by
        have fewer : rest.reserved ⊆ worker.mailbox.reserved := by
          rw [(Mailbox.pop?_eq_some.mp popped).2]
          exact List.Subset.refl _
        have more : worker.mailbox.waiting ⊆ rest.waiting := by
          rw [Mailbox.waiting_of_pop? popped]
          exact List.Subset.refl _
        exact (Wakes.refl s).grantPlace found fewer more holds
      have goes : ((s.updateWorker w fun y ↦ { y with mailbox := rest }).grantPlace w).running =
          some (.worker w) := (running_grantPlace _ w).trans running
      generalize (s.updateWorker w fun y ↦ { y with mailbox := rest }).grantPlace w = u
        at taken goes woken
      have refound : u.bare.workers.get? w = some { worker with mailbox := rest.grant.2 } := by
        rw [taken]
        exact Table.get?_set_self takes.found
      dsimp only
      split
      next y known =>
        obtain rfl := Option.some.inj (refound.symm.trans known)
        exact take_works running takes taken goes woken
      next unknown => exact absurd (refound.symm.trans unknown) (by simp)
    next none =>
      have empty := Mailbox.queue_of_pop?_none none
      split
      next alone =>
        rw [Bool.and_eq_true, Bool.not_eq_true', Bool.not_eq_true'] at alone
        exact .inl (leave_stir running found rfl rfl idle (.released kept empty alone.1 alone.2))
      next =>
        split
        next late => exact .inl (leave_stir running found rfl rfl idle (.idled kept empty late))
        next =>
          refine .inl (.idle running fun y there ↦ ?_)
          obtain rfl := Option.some.inj (found.symm.trans there)
          refine ⟨fun _ ↦ kept, fun alarm waits ↦ ?_⟩
          rw [idle] at waits
          exact absurd waits (by simp [Activity.alarm?])

/-- What a worker does when an attempt to connect has ended. -/
theorem connected_stir {k : Credentials} {outcome : Ledger.Connection} {alarm : Alarm}
    (running : s.running = some (.worker w)) (found : s.workers.get? w = some worker)
    (connecting : worker.activity = .connecting e k outcome alarm) (due : alarm.time ≤ s.now) :
    Stir s (.worker w) (s.connected w worker e k outcome) := by
  have hand : worker.activity.hand? = some e := by
    rw [connecting]
    rfl
  cases outcome with
  | crash =>
    apply Stir.of_worker running
    · exact die_change found (.crashed connecting due)
    · intro P holds
      apply (Wakes.refl s).die
      · intro z found'
        obtain rfl := Option.some.inj (found.symm.trans found')
        exact List.Subset.refl _
      · exact holds e.caller (rouses_of_hand found hand)
      · intro c waits
        exact holds c (rouses_of_closed found waits fun z there ↦ closed_die there)
      · exact fun f queued ↦ holds f.caller (rouses_of_queue found queued)
    · exact fun _ ↦ rests_of_over fun z there ↦ over_die there
  | refused fault =>
    exact complete_stir running found (.refused connecting due) hand (by exact rfl) rfl
      fun P ↦ .refl s
  | place place =>
    exact complete_stir running found (.connected connecting due) hand (bare_ensureLedger s place)
      (by cases place <;> rfl) fun P ↦ (Wakes.refl s).ensureLedger place

/-- What a worker does with the answer to a lookup. -/
theorem lookedUp_stir {attempt : Nat} {alarm : Alarm} (running : s.running = some (.worker w))
    (found : s.workers.get? w = some worker)
    (syncing : worker.activity = .syncing e attempt alarm) (due : alarm.time ≤ s.now) :
    Stir s (.worker w) (s.lookedUp w worker e attempt) := by
  have hand : worker.activity.hand? = some e := by
    rw [syncing]
    rfl
  have policy (i : Identity) : (s.lookup i.ledger i.address).2.policy = s.policy := by
    cases i.ledger <;> rfl
  unfold lookedUp
  split
  next unknown =>
    exact complete_stir running found (.unknown syncing due unknown) hand (by exact rfl) rfl
      fun P ↦ .refl s
  next i known =>
    dsimp only
    split
    next r next decided =>
      rw [← lookup_bare, policy i] at decided
      exact complete_stir running found (.synced syncing due known decided) hand
        (bare_lookup s i.ledger i.address) (by cases i.ledger <;> rfl)
        fun P ↦ (Wakes.refl s).lookup _ _
    next j undecided =>
      rw [policy i] at undecided ⊢
      exact beginLookup_stir running found syncing due known undecided

/-- What a worker that is there does in one step. -/
theorem stepWorker_works (running : s.running = some (.worker w))
    (found : s.workers.get? w = some worker) : Works s w worker (s.stepWorker w) := by
  have waits {alarm : Alarm} (busy : worker.activity ≠ .idle)
      (waits : worker.activity.alarm? = some alarm) (early : ¬ alarm.time ≤ s.now) :
      Works s w worker s.rest := by
    refine .inl (.idle running fun y there ↦ ?_)
    obtain rfl := Option.some.inj (found.symm.trans there)
    refine ⟨fun idle ↦ absurd idle busy, fun other waits' ↦ ?_⟩
    obtain rfl := Option.some.inj (waits.symm.trans waits')
    exact Nat.lt_of_not_le early
  have past (past : worker.activity.isOver = true) : Works s w worker s.rest := by
    refine .inl (.idle running (rests_of_over fun y there ↦ ?_))
    obtain rfl := Option.some.inj (found.symm.trans there)
    exact past
  unfold stepWorker
  rw [found]
  dsimp only
  split
  next idle => exact look_works running found idle
  next e k outcome alarm connecting =>
    split
    next due => exact .inl (connected_stir running found connecting due)
    next early => exact waits (by simp [connecting]) (by rw [connecting]; rfl) early
  next e attempt alarm syncing =>
    split
    next due => exact .inl (lookedUp_stir running found syncing due)
    next early => exact waits (by simp [syncing]) (by rw [syncing]; rfl) early
  next reason left => exact past (by rw [left]; rfl)
  next died => exact past (by rw [died]; rfl)

/-- What a worker does in one step. -/
theorem stepWorker_stirs (running : s.running = some (.worker w)) :
    Stirs (.worker w) s (s.stepWorker w) := by
  cases found : s.workers.get? w with
  | some worker => exact (stepWorker_works running found).stirs
  | none =>
    unfold stepWorker
    rw [found]
    exact .single (.idle running fun y there ↦ absurd (found.symm.trans there) (by simp))

end Workers

section Callers

/-- A caller that has decided where to go may rest if it does not wait for a place. -/
theorem rests_of_phase {p : Phase}
    (callers : t.callers.get? c = (s.callers.get? c).map fun x ↦ { x with phase := p })
    (fresh : p ≠ .fresh) (seeking : p ≠ .seeking) (silent : ∀ w r, p ≠ .replied w r)
    (suspended : ∀ w, p ≠ .suspended w) : t.Rests (.caller c) := by
  intro x found
  rw [callers] at found
  obtain ⟨old, -, rfl⟩ := Option.map_eq_some_iff.mp found
  exact ⟨fresh, seeking, silent, fun w waits ↦ absurd waits (suspended w),
    fun w y waits ↦ absurd waits (suspended w)⟩

/-- A caller whose call is over rests. -/
theorem rests_conclude (s : State) (c : CallerId) (ending : Ending) :
    (s.conclude c ending).Rests (.caller c) := by
  apply rests_of_phase (s := s) (p := .ended ending)
  · change (s.callers.update c _).get? c = _
    rw [Table.get?_update, if_pos rfl]
  · exact Phase.noConfusion
  · exact Phase.noConfusion
  · exact fun _ _ ↦ Phase.noConfusion
  · exact fun _ ↦ Phase.noConfusion

/-- A caller whose envelope is in a mailbox rests. -/
theorem rests_enqueue (s : State) (c : CallerId) (x : Caller) (w : WorkerId)
    (put : Mailbox → Envelope → Mailbox) : (s.enqueue c x w put).Rests (.caller c) := by
  apply rests_of_phase (s := s) (p := .awaiting w)
  · change (s.enqueue c x w put).bare.callers.get? c = _
    rw [bare_enqueue, Table.get?_update, if_pos rfl]
    rfl
  · exact Phase.noConfusion
  · exact Phase.noConfusion
  · exact fun _ _ ↦ Phase.noConfusion
  · exact fun _ ↦ Phase.noConfusion

@[simp] theorem running_detach (s : State) (key : String) (w : WorkerId) :
    (s.detach key w).2.running = s.running := by
  unfold detach
  split
  next => rfl
  next => rfl

/-- A caller that goes on does not rest. -/
theorem rests_turnedAway (running : s.running ≠ none)
    (rests : (s.turnedAway c x w).running = none) : (s.turnedAway c x w).Rests (.caller c) := by
  unfold turnedAway at rests ⊢
  split at rests
  next => exact rests_conclude _ _ _
  next =>
    have same : ((s.detach x.key w).2.retry c).running = s.running := running_detach s x.key w
    exact absurd (same.symm.trans rests) running

/-- A caller makes a change that wakes no other caller. -/
theorem Stir.of_caller (running : s.running = some (.caller c))
    (change : Change s.bare (.caller c) t.bare)
    (wakes : ∀ P : Task → Prop,
      (∀ w, w < s.workers.size ∨ w < t.workers.size → P (.worker w)) → Wakes P s t)
    (rests : t.running = none → t.Rests (.caller c)) : Stir s (.caller c) t where
  running := running
  change := change
  wakes := wakes _ fun _ _ ↦ ⟨.inl Task.noConfusion, fun _ same ↦ Task.noConfusion same⟩
  summons := (wakes _ fun _ inside _ same ↦ Task.worker.inj same ▸ inside).summons
  rests := rests

/-- A call ends. -/
theorem conclude_stir {ending : Ending} (running : s.running = some (.caller c))
    (change : Change s.bare (.caller c) (u.conclude c ending).bare)
    (woken : ∀ P : Task → Prop, Wakes P s u) : Stir s (.caller c) (u.conclude c ending) :=
  .of_caller running change (fun P _ ↦ (woken P).conclude c ending) fun _ ↦ rests_conclude u c ending

/-- What a caller does when it offers its request to a worker. -/
theorem offer_stir (offers : s.bare.Offers c caller w) (running : s.running = some (.caller c)) :
    Stir s (.caller c) (s.offer c caller w) := by
  have goes : s.running ≠ none := by simp [running]
  refine .of_caller running (offer_change offers) (fun P worker ↦ ?_) fun rests ↦ ?_
  · exact (Wakes.refl s).offer (fun _ there ↦ worker w (.inl (Table.lt_size there))) c caller
  · unfold offer at rests ⊢
    dsimp only at rests ⊢
    split at rests
    next => exact rests_turnedAway goes rests
    next =>
      split at rests
      next closed =>
        rw [if_pos closed]
        exact rests_turnedAway goes rests
      next opened =>
        rw [if_neg opened]
        split at rests
        next room =>
          rw [if_pos room]
          exact rests_enqueue _ _ _ _ _
        next => exact absurd rests goes

/-- What a caller does when it offers its request to a worker that is created for it. -/
theorem offerNew_stirs (found : s.callers.get? c = some caller)
    (seeking : caller.phase = .seeking) (direct : caller.direct = none) (tries : caller.tries ≠ 0)
    (serving : s.isShutDown = false) (creates : caller.request.createsWorker = true)
    (vacant : ∀ w, s.find? caller.key = some w → s.isClosed w = true)
    (running : s.running = some (.caller c)) : Stirs (.caller c) s (s.offerNew c caller) := by
  have known : s.bare.callers.get? c = some caller := found
  unfold offerNew
  split
  next large =>
    apply Relation.ReflTransGen.single
    apply conclude_stir running _ fun P ↦ .refl s
    rw [bare_conclude, Table.update_eq_set known]
    exact .conclude found (.crashed seeking direct serving large)
  next =>
    have same : (s.spawn caller.key).2.running = s.running := by
      unfold spawn
      exact running_wake _ _
    have spawns : Stir s (.caller c) (s.spawn caller.key).2 := by
      have size : s.workers.size < (s.spawn caller.key).2.workers.size := by
        have size := congrArg (·.workers.size) (bare_spawn s caller.key)
        exact size ▸ Table.size_push .. ▸ Nat.lt_succ_self _
      refine .of_caller running ?_
        (fun P worker ↦ (Wakes.refl s).spawn (worker _ (.inr size)) caller.key) fun rests ↦ ?_
      · rw [bare_spawn]
        exact .spawn known seeking direct tries serving creates vacant rfl
      · exact absurd (same.symm.trans rests) (by simp [running])
    have offers : (s.spawn caller.key).2.bare.Offers c caller s.workers.size := by
      rw [bare_spawn]
      refine ⟨known, seeking, .inr ⟨direct, tries, serving, ?_⟩⟩
      simp [find?]
    exact .tail (.single spawns) (offer_stir offers (same.trans running))

/-- What a caller does when it looks for the worker of its key. -/
theorem seek_stirs (found : s.callers.get? c = some caller) (seeking : caller.phase = .seeking)
    (direct : caller.direct = none) (running : s.running = some (.caller c)) :
    Stirs (.caller c) s (s.seek c caller) := by
  have known : s.bare.callers.get? c = some caller := found
  have missing (cause : caller.tries = 0 ∨ s.isShutDown = false ∧ s.find? caller.key = none ∧
      caller.request.createsWorker = false) :
      Stirs (.caller c) s (s.concludeNotFound c caller.key) := by
    apply Relation.ReflTransGen.single
    apply conclude_stir running _ fun P ↦ (Wakes.refl s).count _
    change Change s.bare (.caller c) (s.concludeNotFound c caller.key).bare
    rw [bare_concludeNotFound, Table.update_eq_set known]
    exact .notFound known seeking direct cause
  unfold seek
  split
  next tries => exact missing (.inl tries)
  next tries =>
    split
    next closing =>
      apply Relation.ReflTransGen.single
      apply conclude_stir running _ fun P ↦ .refl s
      rw [bare_conclude, Table.update_eq_set known]
      exact .conclude known (.cancelled seeking direct tries closing)
    next serving =>
      rw [Bool.not_eq_true] at serving
      split
      next w named =>
        split
        next both =>
          rw [Bool.and_eq_true] at both
          refine offerNew_stirs found seeking direct tries serving both.1 ?_ running
          intro v named'
          rw [named] at named'
          exact Option.some.inj named' ▸ both.2
        next =>
          exact .single
            (offer_stir ⟨known, seeking, .inr ⟨direct, tries, serving, named⟩⟩ running)
      next vacant =>
        split
        next creates =>
          refine offerNew_stirs found seeking direct tries serving creates ?_ running
          intro v named
          exact absurd (vacant.symm.trans named) (by simp)
        next barren =>
          rw [Bool.not_eq_true] at barren
          exact missing (.inr ⟨serving, vacant, barren⟩)

/-- What a caller does who gives up. -/
theorem giveUp_stir {ending : Ending} (running : s.running = some (.caller c))
    (found : s.callers.get? c = some caller)
    (live : caller.phase.isEnded = false) (cause : s.bare.GivesUp caller ending)
    (same : u.bare = s.bare) (goes : u.running = s.running)
    (woken : ∀ P : Task → Prop, Wakes P s u) :
    Stir s (.caller c) ((u.withdraw c caller).conclude c ending) where
  running := running
  change := by
    have change : Change u.bare (.caller c) ((u.withdraw c caller).conclude c ending).bare := by
      have found : s.bare.callers.get? c = some caller := found
      rw [← same] at found cause
      exact giveUp_change found live cause
    rw [same] at change
    exact change
  summons := by
    have workers : u.workers = s.workers := (congrArg State.workers same :)
    refine (((woken _).withdraw (goes.trans running) (fun v y there w own ↦ .inl ?_)
      fun _ _ _ _ _ _ _ ↦ Task.noConfusion).conclude c ending).summons
    exact Task.worker.inj own ▸ Table.lt_size (workers ▸ there)
  wakes := by
    refine ((woken _).withdraw (goes.trans running)
      (fun w _ _ ↦ ⟨.inr rfl, fun _ same ↦ Task.noConfusion same⟩)
      fun w y d suspended there granted ↦ ⟨.inr rfl, fun e named ↦ ?_⟩).conclude c ending
    obtain rfl := Task.caller.inj named
    have there : u.bare.workers.get? w = some y := there
    obtain ⟨waits, place⟩ := Mailbox.waiting_of_grant granted
    refine .inr ⟨w, y, ?_, List.mem_of_mem_erase waits, fun z after ↦ .inr ?_⟩
    · rw [same] at there
      exact there
    · have after : (u.withdraw c caller).bare.workers.get? w = some z := after
      rw [bare_withdraw u w c suspended] at after
      obtain rfl := Option.some.inj ((Table.get?_update_self there).symm.trans after)
      exact place
  rests := fun _ ↦ rests_conclude _ c ending

/-- A caller that waits can neither begin nor look for a worker nor read a reply. -/
theorem decided_of_waiting {p : Phase} (waiting : p = .suspended w ∨ p = .awaiting w) :
    p.isEnded = false ∧ p ≠ .fresh ∧ p ≠ .seeking ∧ ∀ v r, p ≠ .replied v r := by
  rcases waiting with rfl | rfl
  · simp [Phase.isEnded]
  · simp [Phase.isEnded]

/-- A caller that is suspended on a mailbox while it waits for a worker is suspended there. -/
theorem host_of_waiting {v : WorkerId} {p : Phase} (waiting : p = .suspended w ∨ p = .awaiting w)
    (suspended : p = .suspended v) : v = w := by
  rcases waiting with same | awaiting
  · exact Phase.suspended.inj (suspended.symm.trans same)
  · exact absurd (suspended.symm.trans awaiting) (by simp)

/-- A caller whose time is limited gives up if its time is over, and else learns when it will. -/
theorem limit_stir {limit : Nat} {alarm : Alarm} (running : s.running = some (.caller c))
    (found : s.callers.get? c = some caller)
    (waiting : caller.phase = .suspended w ∨ caller.phase = .awaiting w)
    (opened : caller.phase = .suspended w → s.isClosed w = false)
    (placeless : ∀ y, caller.phase = .suspended w → s.workers.get? w = some y →
      c ∉ y.mailbox.reserved)
    (direct : caller.direct = none) (limited : s.policy.requestTimeout = some limit)
    (same : u.bare = s.bare) (goes : u.running = s.running)
    (woken : ∀ P : Task → Prop, Wakes P s u)
    (due : caller.limit = some alarm ∨ caller.limit = none ∧ alarm.time = s.bare.after limit)
    (fits : caller.limit = some alarm ∨ s.tickets ≤ alarm.ticket ∧ alarm.ticket < u.tickets) :
    Stir s (.caller c) (if alarm.time ≤ u.now then
      (u.withdraw c caller).conclude c (.result (.error .timeout))
    else (u.updateCaller c fun caller ↦ { caller with limit := some alarm }).rest) := by
  have known : s.bare.callers.get? c = some caller := found
  have there : u.bare.callers.get? c = some caller := same ▸ known
  have clock : u.bare.now = s.bare.now := by rw [same]
  have clock : u.now = s.now := clock
  obtain ⟨live, decided⟩ := decided_of_waiting waiting
  split
  next late =>
    exact giveUp_stir running found live
      (.timeout waiting direct limited due (clock ▸ late)) same goes woken
  next early =>
    apply Stir.of_caller running
    · rw [bare_rest, bare_updateCaller, same, Table.update_eq_set known]
      exact .limit known waiting direct limited (clock ▸ Nat.lt_of_not_le early) due
    · exact fun P _ ↦ ((woken P).limit there fits).rest
    · intro _ x now
      have now : (u.bare.callers.update c fun caller ↦
          { caller with limit := some alarm }).get? c = some x := now
      obtain rfl := Option.some.inj ((Table.get?_update_self there).symm.trans now)
      refine ⟨decided.1, decided.2.1, decided.2.2, fun v suspended ↦ ?_,
        fun v y suspended worker ↦ ?_⟩
      · obtain rfl := host_of_waiting waiting suspended
        change u.bare.isClosed v = false
        rw [same]
        exact opened suspended
      · obtain rfl := host_of_waiting waiting suspended
        have worker : u.bare.workers.get? v = some y := worker
        rw [same] at worker
        exact ⟨placeless y suspended worker, fun _ _ _ ↦
          ⟨alarm, rfl, Nat.lt_of_not_le early⟩⟩

/-- What a caller does while it waits. -/
theorem pend_stir (running : s.running = some (.caller c))
    (found : s.callers.get? c = some caller)
    (waiting : caller.phase = .suspended w ∨ caller.phase = .awaiting w)
    (opened : caller.phase = .suspended w → s.isClosed w = false)
    (placeless : ∀ y, caller.phase = .suspended w → s.workers.get? w = some y →
      c ∉ y.mailbox.reserved) : Stir s (.caller c) (s.pend c caller) := by
  unfold pend
  split
  next limit direct limited =>
    cases set : caller.limit with
    | some alarm =>
      exact limit_stir running found waiting opened placeless direct limited rfl rfl
        (fun P ↦ .refl s) (.inl set) (.inl set)
    | none =>
      exact limit_stir (u := (s.alarmAfter limit).2) running found waiting opened placeless direct
        limited rfl rfl (fun P ↦ (Wakes.refl s).alarmAfter limit) (.inr ⟨set, rfl⟩)
        (.inr ⟨Nat.le_refl _, Nat.lt_succ_self _⟩)
  next unlimited =>
    obtain ⟨-, decided⟩ := decided_of_waiting waiting
    apply Stir.idle running
    intro x now
    obtain rfl := Option.some.inj (found.symm.trans now)
    refine ⟨decided.1, decided.2.1, decided.2.2, fun v suspended ↦ ?_,
      fun v y suspended worker ↦ ?_⟩
    · obtain rfl := host_of_waiting waiting suspended
      exact opened suspended
    · obtain rfl := host_of_waiting waiting suspended
      have worker : s.workers.get? v = some y := worker
      refine ⟨placeless y suspended worker, fun direct limit limited ↦ ?_⟩
      exact absurd limited (unlimited limit direct)

/-- What a caller does when a mailbox has room or is closed. -/
theorem resume_stir (found : s.callers.get? c = some caller)
    (suspended : caller.phase = .suspended w) (running : s.running = some (.caller c)) :
    Stir s (.caller c) (s.resume c caller w) := by
  have known : s.bare.callers.get? c = some caller := found
  have turned (shut : s.bare.isClosed w = true) :
      Stir s (.caller c) (s.turnedAway c caller w) := by
    refine .of_caller running ?_ (fun P _ ↦ (Wakes.refl s).turnedAway c caller w)
      (rests_turnedAway (by simp [running]))
    unfold turnedAway
    split
    next v direct =>
      rw [bare_conclude, Table.update_eq_set known]
      exact .conclude known (.closed suspended direct shut)
    next direct =>
      rw [bare_retry, bare_detach, Table.update_eq_set known]
      exact .turnAway known suspended shut direct
  unfold resume
  split
  next missing =>
    apply turned
    unfold isClosed
    rw [show s.bare.workers.get? w = none from missing]
  next worker there =>
    have there : s.bare.workers.get? w = some worker := there
    split
    next closed =>
      apply turned
      unfold isClosed
      rw [there]
      exact closed
    next opened =>
      rw [Bool.not_eq_true] at opened
      split
      next place =>
        refine .of_caller running ?_ (fun P worker ↦ ?_) fun _ ↦ rests_enqueue _ _ _ _ _
        · rw [bare_enqueue, Table.update_eq_set known, Table.update_eq_set there]
          exact .occupy known suspended there opened place
        · exact (Wakes.refl s).enqueue (worker w (.inl (Table.lt_size there))) caller (fun _ _ ↦ List.erase_subset)
            fun _ _ ↦ rfl
      next placeless =>
        have open_here : s.bare.isClosed w = false := by
          unfold isClosed
          rw [there]
          exact opened
        refine pend_stir running found (.inl suspended) (fun _ ↦ open_here) fun y _ found' ↦ ?_
        obtain rfl := Option.some.inj (there.symm.trans found')
        exact placeless

/-- What a caller does with a reply. -/
theorem receive_stir {reply : Reply} (found : s.callers.get? c = some caller)
    (replied : caller.phase = .replied w reply) (running : s.running = some (.caller c)) :
    Stir s (.caller c) (s.receive c caller w reply) := by
  have goes : s.running ≠ none := by simp [running]
  refine .of_caller running (receive_change found replied)
    (fun P _ ↦ (Wakes.refl s).receive c caller w reply) fun rests ↦ ?_
  cases reply with
  | answered r => exact rests_conclude _ _ _
  | handedBack =>
    unfold receive at rests ⊢
    dsimp only at rests ⊢
    split at rests
    next => exact rests_conclude _ _ _
    next => exact absurd rests goes
  | lost =>
    unfold receive
    dsimp only
    split
    next => exact rests_conclude _ _ _
    next => exact rests_conclude _ _ _

/-- What a caller does in one step that does not look for a worker: one thing. -/
theorem stepCaller_stir (running : s.running = some (.caller c))
    (decided : ∀ x, s.callers.get? c = some x → x.phase = .seeking → x.dropped = true) :
    Stir s (.caller c) (s.stepCaller c) := by
  have goes : s.running ≠ none := by simp [running]
  unfold stepCaller
  split
  next missing =>
    apply Stir.idle running
    intro x found
    exact absurd (missing.symm.trans found) (by simp)
  next caller found =>
    have known : s.bare.callers.get? c = some caller := found
    have past (ended : caller.phase.isEnded = true) : Stir s (.caller c) s.rest := by
      apply Stir.idle running
      intro x found'
      obtain rfl := Option.some.inj (found.symm.trans found')
      cases phase : caller.phase with
      | ended e =>
        refine ⟨?_, ?_, ?_, ?_, ?_⟩ <;> simp [phase]
      | _ => exact absurd (phase ▸ ended) (by simp [Phase.isEnded])
    split
    next ended => exact past ended
    next live =>
      rw [Bool.not_eq_true] at live
      split
      next dropped =>
        exact giveUp_stir running found live (.dropped dropped) rfl rfl fun P ↦ .refl s
      next kept =>
        split
        next fresh =>
          refine .of_caller running ?_ (fun P _ ↦ (Wakes.refl s).begin c caller) fun rests ↦ ?_
          · unfold begin
            dsimp only
            split
            next w direct =>
              rw [bare_updateCaller, Table.update_eq_set known]
              exact .beginDirect known fresh direct
            next direct =>
              rw [bare_count, bare_log, bare_updateCaller, Table.update_eq_set known]
              exact .begin known fresh direct
          · unfold begin at rests
            dsimp only at rests
            split at rests
            next => exact absurd rests goes
            next => exact absurd rests goes
        next seeking => exact absurd (decided caller found seeking) kept
        next w suspended => exact resume_stir found suspended running
        next w awaiting =>
          have elsewhere (suspended : caller.phase = .suspended w) : False :=
            absurd (awaiting.symm.trans suspended) (by simp)
          exact pend_stir running found (.inr awaiting)
            (fun suspended ↦ (elsewhere suspended).elim) fun y suspended ↦ (elsewhere suspended).elim
        next w r replied => exact receive_stir found replied running
        next e ended => exact past (by rw [ended]; rfl)

/-- What a caller does in one step. -/
theorem stepCaller_stirs (running : s.running = some (.caller c)) :
    Stirs (.caller c) s (s.stepCaller c) := by
  by_cases decided : ∀ x, s.callers.get? c = some x → x.phase = .seeking → x.dropped = true
  · exact .single (stepCaller_stir running decided)
  · obtain ⟨caller, found, seeking, kept⟩ :
        ∃ x, s.callers.get? c = some x ∧ x.phase = .seeking ∧ x.dropped ≠ true := by
      simpa using decided
    have known : s.bare.callers.get? c = some caller := found
    unfold stepCaller
    rw [found]
    dsimp only
    rw [seeking, if_neg (by simp [Phase.isEnded]), if_neg kept]
    dsimp only
    split
    next w direct => exact .single (offer_stir ⟨known, seeking, .inl direct⟩ running)
    next direct => exact seek_stirs found seeking direct running

end Callers

/-- What a task that runs does in one step. -/
theorem step_stirs (running : s.running = some τ) (taken : s.step = some t) : Stirs τ s t := by
  unfold step at taken
  rw [running] at taken
  cases τ with
  | worker w => exact Option.some.inj taken ▸ stepWorker_stirs running
  | caller c => exact Option.some.inj taken ▸ stepCaller_stirs running

/-- What a task that runs does in one step comes to some changes. -/
theorem Stirs.changes (stirs : Stirs τ s t) : Changes τ s.bare t.bare := by
  induction stirs with
  | refl => exact .refl
  | tail _ stir ih => exact ih.tail stir.change

/-- Everything that happens in a step is listed. -/
theorem step_changes (taken : s.step = some t) :
    (∃ τ, s.running = some τ ∧ Changes τ s.bare t.bare) ∨ t.bare = s.bare := by
  cases running : s.running with
  | some τ => exact .inl ⟨τ, rfl, (step_stirs running taken).changes⟩
  | none =>
    right
    unfold step at taken
    rw [running] at taken
    dsimp only at taken
    split at taken
    next => exact Option.some.inj taken ▸ rfl
    next =>
      split at taken
      next =>
        split at taken
        next => exact Option.some.inj taken ▸ rfl
        next => exact absurd taken (by simp)
      next => exact absurd taken (by simp)

end State

end Signatory.Service
