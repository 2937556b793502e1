import Mathlib.Algebra.BigOperators.Ring.Finset
import Signatory.Proofs.Service.Resting

/-!
# How much there is at once

A caller has one request, so there are never more envelopes than callers. Nobody has more tries than
at first, and every task in the schedule is there and occurs once. So the workers and the callers
bound how much is left to do, and how many tasks are ready.
-/

namespace Signatory.Service

/-- Whether a caller still has its request, or has it back. -/
def Phase.keeps : Phase → Nat
  | .awaiting _ | .ended _ => 0
  | _ => 1

namespace Table

variable {α : Type} {f g : α → Nat} {t : Table α}

/-- A change that makes any entry count for so much more at most does so for the table. -/
theorem total_update_le {h : α → α} {k : Nat} (more : ∀ a, f (h a) ≤ f a + k) (i : Nat) :
    (t.update i h).total f ≤ t.total f + k := by
  cases found : t.get? i with
  | none =>
    rw [update_self fun a there ↦ absurd (found.symm.trans there) (by simp)]
    exact Nat.le_add_right _ _
  | some a =>
    have whole := total_set (f := f) (b := h a) found
    have some_more := more a
    rw [update_eq_set found]
    omega

/-- What the entries count for is bounded by what they count for in another way, if that is so for
each of them. -/
theorem total_le_add {k m : Nat} (le : ∀ i a, t.get? i = some a → f a ≤ k + m * g a) :
    t.total f ≤ k * t.size + m * t.total g := by
  have sum : k * t.size + m * t.total g =
      ∑ i ∈ Finset.range t.size, (k + m * ((t.get? i).map g).getD 0) := by
    rw [Finset.sum_add_distrib, Finset.sum_const_nat fun _ _ ↦ rfl, Finset.card_range,
      ← Finset.mul_sum, total, Nat.mul_comm k]
  rw [sum]
  refine Finset.sum_le_sum fun i inside ↦ ?_
  obtain ⟨a, found⟩ := Option.isSome_iff_exists.mp (get?_isSome.mpr (Finset.mem_range.mp inside))
  rw [found]
  exact le i a found

end Table

/-- Two tables that have entries with the same numbers are of one size. -/
theorem Table.size_congr {α β : Type} {t : Table α} {u : Table β}
    (same : ∀ i, (u.get? i).isSome = (t.get? i).isSome) : u.size = t.size := by
  have inside (i : Nat) : i < u.size ↔ i < t.size := by
    rw [← get?_isSome, ← get?_isSome, same i]
  have one := inside t.size
  have other := inside u.size
  omega

namespace State

variable {front : List CallerId} {s t : State} {τ : Task} {w : WorkerId} {y z : Worker}
  {c : CallerId} {x old : Caller} {time : Nat}

section Requests

/-- How many requests are somewhere, with their callers or in envelopes. -/
def requests (s : State) : Nat :=
  s.workers.total (·.envelopes.length) + s.callers.total (·.phase.keeps)

/-- There are no more requests if a worker gives up as many as come back to callers. -/
theorem requests_le_of_worker (k : Nat) (found : s.workers.get? w = some y)
    (workers : t.workers = s.workers.set w z) (fewer : z.envelopes.length + k ≤ y.envelopes.length)
    (callers : t.callers.total (·.phase.keeps) ≤ s.callers.total (·.phase.keeps) + k) :
    t.requests ≤ s.requests := by
  have whole := Table.total_set (f := (·.envelopes.length)) (b := z) found
  rw [requests, requests, workers]
  omega

/-- There are no more requests if a caller gives up as many as come to workers. -/
theorem requests_le_of_caller (k : Nat) (known : s.callers.get? c = some old)
    (callers : t.callers = s.callers.set c x) (fewer : x.phase.keeps + k ≤ old.phase.keeps)
    (workers : t.workers.total (·.envelopes.length) ≤ s.workers.total (·.envelopes.length) + k) :
    t.requests ≤ s.requests := by
  have all := Table.total_set (f := (·.phase.keeps)) (b := x) known
  rw [requests, requests, callers]
  omega

/-- A reply brings back one request at most. -/
theorem keeps_reply (w : WorkerId) (r : Reply) (x : Caller) :
    (x.reply w r).phase.keeps ≤ x.phase.keeps + 1 := by
  unfold Caller.reply
  split
  next => exact Nat.le_add_left 1 _
  next => exact Nat.le_add_right _ 1

/-- Replies bring back no more requests than there are envelopes. -/
theorem keeps_replyAll (callers : Table Caller) (w : WorkerId) (r : Reply) (es : List Envelope) :
    (replyAll w r es callers).total (·.phase.keeps) ≤
      callers.total (·.phase.keeps) + es.length := by
  induction es generalizing callers with
  | nil => exact Nat.le_refl _
  | cons e es ih =>
    have first : (callers.update e.caller (Caller.reply w r)).total (·.phase.keeps) ≤
        callers.total (·.phase.keeps) + 1 := Table.total_update_le (keeps_reply w r) _
    have rest := ih (callers.update e.caller (Caller.reply w r))
    rw [List.length_cons]
    exact Nat.le_trans rest (by omega)

/-- A worker that takes an envelope has one more than are left in its mailbox. -/
theorem Takes.length {e : Envelope} {rest : Mailbox} (takes : Takes s w y e rest) :
    y.envelopes.length = rest.queue.length + 1 := by
  rw [Worker.envelopes_of_idle takes.idle, Mailbox.queue_of_pop? takes.popped, List.length_cons]

/-- There are no more requests after a change. -/
theorem Change.requests_le (change : Change s τ t) : t.requests ≤ s.requests := by
  have answer (callers : Table Caller) (c : CallerId) (w : WorkerId) (r : Reply) :
      (callers.update c (Caller.reply w r)).total (·.phase.keeps) ≤
        callers.total (·.phase.keeps) + 1 :=
    Table.total_update_le (keeps_reply w r) c
  have put {w : WorkerId} {y z : Worker} (found : s.workers.get? w = some y)
      (activity : z.activity = y.activity) {k : Nat}
      (queue : z.mailbox.queue.length = y.mailbox.queue.length + k) :
      (s.workers.set w z).total (·.envelopes.length) ≤
        s.workers.total (·.envelopes.length) + k := by
    have whole := Table.total_set (f := (·.envelopes.length)) (b := z) found
    simp only [Worker.envelopes, activity, List.length_append, queue] at whole ⊢
    omega
  have ended {x : Caller} (ending : Ending) :
      ({ x with phase := .ended ending } : Caller).phase.keeps + 0 ≤ x.phase.keeps :=
    Nat.zero_le _
  cases change with
  | rest => exact Nat.le_refl _
  | leave found idle =>
    refine requests_le_of_worker _ found rfl ?_ (keeps_replyAll _ _ _ _)
    rw [Worker.envelopes_of_idle idle]
    exact Nat.le_of_eq (Nat.zero_add _)
  | die found cause =>
    refine requests_le_of_worker _ found rfl (Nat.le_of_eq ?_) (keeps_replyAll _ _ _ _)
    refine (Nat.zero_add _).trans ?_
    cases cause with
    | crashed connecting => simp [Worker.envelopes, connecting, Activity.hand?]
    | outOfReach takes => rw [takes.length, List.length_cons, Mailbox.grant_queue]
  | skip takes =>
    refine requests_le_of_worker 1 takes.found rfl ?_ (Nat.le_add_right _ 1)
    rw [takes.length, Worker.envelopes_of_idle (by exact takes.idle), Mailbox.grant_queue]
  | misroute takes =>
    refine requests_le_of_worker 1 takes.found rfl ?_ (answer _ _ _ _)
    rw [takes.length, Worker.envelopes_of_idle (by exact takes.idle), Mailbox.grant_queue]
  | connect accepts =>
    refine requests_le_of_worker 0 accepts.found rfl ?_ (Nat.le_refl _)
    rw [accepts.toTakes.length, Worker.envelopes, Mailbox.grant_queue]
    exact Nat.le_refl _
  | lookup accepts =>
    refine requests_le_of_worker 0 accepts.found rfl ?_ (Nat.le_refl _)
    rw [accepts.toTakes.length, Worker.envelopes, Mailbox.grant_queue]
    exact Nat.le_refl _
  | serve accepts =>
    refine requests_le_of_worker 1 accepts.found rfl ?_ (answer _ _ _ _)
    rw [accepts.toTakes.length, Worker.envelopes_of_idle rfl, Mailbox.grant_queue]
  | finish found finishes =>
    refine requests_le_of_worker 1 found rfl ?_ (answer _ _ _ _)
    rw [Worker.envelopes_of_idle rfl, Worker.envelopes, finishes.hand]
    exact Nat.le_refl _
  | again found syncing =>
    refine requests_le_of_worker 0 found rfl (Nat.le_of_eq ?_) (Nat.le_refl _)
    rw [Worker.envelopes, Worker.envelopes, syncing]
    rfl
  | begin known fresh =>
    exact requests_le_of_caller 0 known rfl (by rw [fresh]; rfl) (Nat.le_refl _)
  | beginDirect known fresh =>
    exact requests_le_of_caller 0 known rfl (by rw [fresh]; rfl) (Nat.le_refl _)
  | spawn =>
    rw [requests, requests]
    refine Nat.add_le_add_right (Nat.le_of_eq ?_) _
    rw [Table.total_push]
    rfl
  | push offers found =>
    refine requests_le_of_caller 1 offers.found rfl (by rw [offers.seeking]; rfl)
      (put found (by rfl) ?_)
    exact List.length_append
  | suspend offers found =>
    refine requests_le_of_caller 0 offers.found rfl (by rw [offers.seeking]; rfl)
      (put found (by rfl) (by rfl))
  | refuse offers =>
    exact requests_le_of_caller 0 offers.found rfl (by rw [offers.seeking]; rfl) (Nat.le_refl _)
  | refuseDirect offers =>
    exact requests_le_of_caller 0 offers.found rfl (ended _) (Nat.le_refl _)
  | occupy known suspended found =>
    refine requests_le_of_caller 1 known rfl (by rw [suspended]; rfl)
      (put found (by rfl) ?_)
    exact List.length_append
  | turnAway known suspended =>
    exact requests_le_of_caller 0 known rfl (by rw [suspended]; rfl) (Nat.le_refl _)
  | retry known replied =>
    exact requests_le_of_caller 0 known rfl (by rw [replied]; rfl) (Nat.le_refl _)
  | limit known => exact requests_le_of_caller 0 known rfl (Nat.le_refl _) (Nat.le_refl _)
  | conclude known => exact requests_le_of_caller 0 known rfl (ended _) (Nat.le_refl _)
  | notFound known => exact requests_le_of_caller 0 known rfl (ended _) (Nat.le_refl _)
  | lose known => exact requests_le_of_caller 0 known rfl (ended _) (Nat.le_refl _)
  | giveUp known => exact requests_le_of_caller 0 known rfl (ended _) (Nat.le_refl _)
  | @withdraw c x w ending known suspended =>
    refine requests_le_of_caller 0 known rfl (ended ending) (Table.total_update_le (fun y ↦ ?_) w)
    rw [Worker.envelopes, Worker.envelopes, Mailbox.grant_queue]
    exact Nat.le_refl _

/-- A use brings about one request for each call that it begins. -/
theorem Use.requests_le (use : Use s t) (few : s.requests ≤ s.callers.size) :
    t.requests ≤ t.callers.size := by
  have same (workers : t.workers.total (·.envelopes.length) ≤ s.workers.total (·.envelopes.length))
      (callers : t.callers.total (·.phase.keeps) = s.callers.total (·.phase.keeps)) :
      t.requests ≤ t.callers.size := by
    refine Nat.le_trans ?_ (Nat.le_trans few use.later.callers.size_le)
    rw [requests, requests, callers]
    exact Nat.add_le_add_right workers _
  cases use with
  | dispatch key request =>
    rw [requests, Table.total_push, Table.size_push]
    exact Nat.add_le_add_right few 1
  | @drop c x found =>
    have whole := Table.total_set (f := (·.phase.keeps)) (b := { x with dropped := true }) found
    exact same (Nat.le_refl _) (Nat.add_right_cancel whole)
  | @remove key w =>
    refine same (Table.total_update_le (k := 0) (fun y ↦ ?_) w) rfl
    exact Nat.le_refl y.envelopes.length
  | shutdown serving cancelled =>
    refine same (Table.total_le (Table.size_congr fun w ↦ ?_) fun {w y z} found there ↦ ?_) rfl
    · rw [cancelled w, Option.isSome_map]
    · rw [cancelled w, found] at there
      obtain rfl := Option.some.inj there
      exact Nat.le_refl _
  | _ => exact same (Nat.le_refl _) rfl

/-- There are never more requests than callers. -/
theorem Reachable.requests_le (h : s.Reachable) : s.requests ≤ s.callers.size := by
  have kept := Reachable.invariant (P := fun s ↦ s.requests ≤ s.callers.size)
    (fun _ _ ↦ Nat.le_refl 0)
    (fun few change ↦
      Nat.le_trans change.requests_le (Nat.le_trans few change.later.callers.size_le))
    (fun few use ↦ use.requests_le few) h
  exact kept

end Requests

section Effort

/-- Nobody has more tries than at first, and nobody has a limit unless the policy sets one. -/
structure Modest (s : State) : Prop where
  tries : ∀ {c x}, s.callers.get? c = some x → x.tries ≤ 3
  limited : ∀ {c x alarm}, s.callers.get? c = some x → x.limit = some alarm →
    ∃ limit, s.policy.requestTimeout = some limit

/-- Callers stay modest when something changes. -/
theorem Change.modest (h : s.Modest) (change : Change s τ t) : t.Modest where
  tries := by
    intro c x here
    rcases change.caller here with found | ⟨old, found, moves⟩
    · exact h.tries found
    · have few := h.tries found
      cases moves with
      | retry => exact Nat.le_trans (Nat.sub_le _ _) few
      | _ => exact few
  limited := by
    intro c x alarm here set
    rw [change.later.policy]
    rcases change.caller here with found | ⟨old, found, moves⟩
    · exact h.limited found set
    · cases moves with
      | limit waiting limited => exact ⟨_, limited⟩
      | _ => exact h.limited found set

/-- Callers are modest when they begin, and stay so whatever is done to them. -/
theorem Use.modest (h : s.Modest) (use : Use s t) : t.Modest where
  tries := by
    intro c x here
    rcases use.becomes here with ⟨-, key, request, rfl⟩ | ⟨old, found, same⟩
    · exact Nat.le_refl 3
    · have few := h.tries found
      rcases same with rfl | rfl
      · exact few
      · exact few
  limited := by
    intro c x alarm here set
    rw [use.later.policy]
    rcases use.becomes here with ⟨-, key, request, rfl⟩ | ⟨old, found, rfl | rfl⟩
    · exact absurd set (by simp)
    · exact h.limited found set
    · exact h.limited found set

theorem Reachable.modest (h : s.Reachable) : s.Modest := by
  have kept := Reachable.invariant (P := Modest)
    (fun _ _ ↦ ⟨fun found ↦ absurd ((Table.get?_empty _).symm.trans found) (by simp),
      fun found ↦ absurd ((Table.get?_empty _).symm.trans found) (by simp)⟩)
    (fun h change ↦ change.modest h) (fun h use ↦ use.modest h) h
  exact ⟨kept.tries, kept.limited⟩

/-- How much is left to do for a worker is bounded by how many envelopes it has. -/
theorem toil_le_of_envelopes (n : Nat) (y : Worker) :
    y.toil n ≤ (n + 2) + (n + 2) * y.envelopes.length := by
  have activity : y.activity.toil n ≤ n + 2 := by
    cases y.activity <;> simp only [Activity.toil] <;> omega
  have queue : y.mailbox.queue.length ≤ y.envelopes.length := by
    rw [Worker.envelopes, List.length_append]
    exact Nat.le_add_left _ _
  exact Nat.add_le_add activity (Nat.mul_le_mul_left _ queue)

/-- How much is left to do for a caller is bounded by how many tries it has. -/
theorem toil_le_of_tries (n : Nat) (few : x.tries ≤ 3) : x.toil n ≤ 3 * n + 27 := by
  have all := Nat.mul_le_mul_left (n + 8) few
  have fewer : (n + 8) * (x.tries - 1) ≤ (n + 8) * 2 := Nat.mul_le_mul_left _ (by omega)
  unfold Caller.toil
  cases x.phase <;> simp only [Phase.toil] <;> split <;> omega

/-- How much is left to do is bounded by how many workers and callers there are. -/
theorem Reachable.effort_le (h : s.Reachable) (n : Nat) :
    s.effort n ≤ (n + 2) * (s.workers.size + s.callers.size) + (3 * n + 27) * s.callers.size := by
  have few : s.workers.total (·.envelopes.length) ≤ s.callers.size :=
    Nat.le_trans (Nat.le_add_right _ _) h.requests_le
  have workers := Table.total_le_add (t := s.workers) fun _ y _ ↦ toil_le_of_envelopes n y
  have callers := Table.total_le_add (t := s.callers) (f := Caller.toil n) (g := fun _ ↦ 0) (m := 0)
    fun _ _ found ↦ toil_le_of_tries n (h.modest.tries found)
  have less := Nat.mul_le_mul_left (n + 2) few
  rw [Nat.zero_mul] at callers
  rw [effort, Nat.mul_add]
  omega

end Effort

section Presence

/-- A task that there is. -/
def Present (s : State) : Task → Prop
  | .worker w => w < s.workers.size
  | .caller c => c < s.callers.size

/-- Tasks stay. -/
theorem Present.later (h : s.Present τ) (later : s.Later t) : t.Present τ := by
  cases τ with
  | worker => exact Nat.lt_of_lt_of_le h later.workers.size_le
  | caller => exact Nat.lt_of_lt_of_le h later.callers.size_le

/-- Each task that is ready is there, and is ready once. -/
structure Listed (s : State) : Prop where
  once : s.ready.Nodup
  present : ∀ τ ∈ s.ready, s.Present τ

/-- Tasks that are woken are listed if they are there. -/
theorem Wakes.listed {P : Task → Prop} (wakes : Wakes P s t) (h : s.Listed)
    (workers : s.workers.size ≤ t.workers.size) (callers : s.callers.size ≤ t.callers.size)
    (woken : ∀ τ ∈ t.ready, τ ∉ s.ready → t.Present τ) : t.Listed := by
  obtain ⟨new, grown, distinct, apart⟩ := wakes.ready
  refine ⟨?_, fun τ ready ↦ ?_⟩
  · rw [grown]
    refine List.nodup_append.mpr ⟨h.once, distinct, fun τ old υ late same ↦ ?_⟩
    exact (apart υ late).1 (same ▸ old)
  · by_cases old : τ ∈ s.ready
    · have there := h.present τ old
      cases τ with
      | worker => exact Nat.lt_of_lt_of_le there workers
      | caller => exact Nat.lt_of_lt_of_le there callers
    · exact woken τ ready old

/-- The caller of an envelope is there, and so is whoever waits for a place. -/
theorem Rouses.present (owned : Owned s.workers s.callers) (rouses : Rouses s t c) :
    c < s.callers.size := by
  rcases rouses with ⟨w, y, found, held⟩ | ⟨w, y, found, waits, -⟩
  · obtain ⟨e, inside, rfl⟩ := List.mem_map.mp held
    obtain ⟨x, known, -⟩ := owned.carried found inside
    exact Table.lt_size known
  · obtain ⟨-, x, known, -⟩ := suspended_of_lined owned found (List.mem_append_right _ waits)
    exact Table.lt_size known

/-- What a task does leaves the tasks that are ready listed. -/
theorem Stir.listed (h : s.Listed) (owned : Owned s.workers s.callers) (stir : Stir s τ t) :
    t.Listed := by
  have workers : s.workers.size ≤ t.workers.size := stir.change.later.workers.size_le
  have callers : s.callers.size ≤ t.callers.size := stir.change.later.callers.size_le
  refine stir.wakes.listed h workers callers fun υ ready new ↦ ?_
  cases υ with
  | worker w =>
    have there := (stir.summons w ready).resolve_left new
    exact there.elim (fun old ↦ Nat.lt_of_lt_of_le old workers) id
  | caller c =>
    have rouses := (stir.woken ready new).2.2 c rfl
    exact Nat.lt_of_lt_of_le (rouses.present owned) callers

/-- Every step leaves the tasks that are ready listed. -/
theorem Listed.step (h : s.Listed) (attended : s.Attended) (taken : s.step = some t) :
    t.Listed := by
  cases running : s.running with
  | some τ =>
    have kept {u : State} (stirs : Stirs τ s u) : u.Attended ∧ u.Listed := by
      induction stirs with
      | refl => exact ⟨attended, h⟩
      | tail _ stir ih => exact ⟨stir.attended ih.1, stir.listed ih.2 ih.1.owned⟩
    exact (kept (step_stirs running taken)).2
  | none =>
    unfold State.step at taken
    rw [running] at taken
    dsimp only at taken
    split at taken
    next τ ready queue =>
      obtain rfl := Option.some.inj taken
      have once := h.once
      rw [queue] at once
      exact ⟨once.of_cons, fun υ later ↦ h.present υ (queue ▸ List.mem_cons_of_mem τ later)⟩
    next =>
      split at taken
      next =>
        split at taken
        next => exact Option.some.inj taken ▸ ⟨h.once, h.present⟩
        next => exact absurd taken (by simp)
      next => exact absurd taken (by simp)

/-- Tasks that are woken are listed if only such are woken that are there. -/
theorem Listed.wake {P : Task → Prop} (h : s.Listed) (wakes : Wakes P s t)
    (workers : s.workers.size ≤ t.workers.size) (callers : s.callers.size ≤ t.callers.size)
    (there : ∀ τ, P τ → t.Present τ) : t.Listed := by
  refine wakes.listed h workers callers fun τ ready new ↦ ?_
  obtain ⟨woken, grown, -, causes⟩ := wakes.ready
  rw [grown] at ready
  exact there τ (causes τ ((List.mem_append.mp ready).resolve_left new)).2.2

/-- Whoever the user wakes is there. -/
theorem Admitted.present (τ : Task) (admitted : Admitted t τ) : t.Present τ := by
  rcases admitted with ⟨w, y, rfl, found, -⟩ | ⟨c, x, rfl, known, -⟩
  · exact Table.lt_size found
  · exact Table.lt_size known

/-- What the user does leaves the tasks that are ready listed. -/
theorem Act.listed (h : s.Listed) (act : Act s t) : t.Listed := by
  have later := act.next.later
  have workers := later.workers.size_le
  have callers := later.callers.size_le
  cases act with
  | spawn key request =>
    have begun : Wakes (· = .caller s.callers.size) s (s.spawnCall { key, request }).2 :=
      ((Wakes.refl s).addCaller key request).wake rfl
    refine h.wake begun workers callers fun τ new ↦ ?_
    rw [new]
    change _ < ((s.addCaller { key, request }).2.wake _).callers.size
    rw [callers_wake]
    exact Table.size_push .. ▸ Nat.lt_succ_self _
  | drop known =>
    have admits : Admits [] [] s _ := admits_dropCaller known
    exact h.wake admits.wakes workers callers Admitted.present
  | remove key =>
    have admits : Admits [] [] s _ := admits_remove key
    exact h.wake admits.wakes workers callers Admitted.present
  | shutdown =>
    have admits : Admits [] [] s _ := admits_shutdown
    exact h.wake admits.wakes workers callers Admitted.present
  | ledger name l => exact ⟨h.once, h.present⟩

/-- A task for which something is due is there. -/
theorem present_of_due (listed : τ ∈ s.dueAt time) : s.Present τ := by
  unfold dueAt alarms at listed
  obtain ⟨⟨alarm, υ⟩, sorted, rfl⟩ := List.mem_map.mp listed
  rw [List.mem_mergeSort] at sorted
  have pending := (List.mem_filter.mp (List.mem_filter.mp sorted).1).1
  rcases List.mem_append.mp pending with worker | caller
  · obtain ⟨⟨w, y⟩, there, named⟩ := List.mem_filterMap.mp worker
    dsimp only at named
    have own : υ = .worker w := by
      split at named
      next => exact (Prod.mk.inj (Option.some.inj named)).2.symm
      next =>
        obtain ⟨_, _, same⟩ := Option.map_eq_some_iff.mp named
        exact (Prod.mk.inj same).2.symm
    subst own
    exact Table.lt_size (mem_toList.mp there)
  · obtain ⟨⟨c, x⟩, there, named⟩ := List.mem_filterMap.mp caller
    dsimp only at named
    split at named
    next => exact absurd named (by simp)
    next =>
      obtain ⟨_, _, same⟩ := Option.map_eq_some_iff.mp named
      obtain rfl := (Prod.mk.inj same).2
      exact Table.lt_size (mem_toList.mp there)

/-- When the clock moves the tasks that are ready stay listed. -/
theorem Listed.jump (h : s.Listed) (time : Nat) : (s.jump time).Listed := by
  have woken : Wakes s.Present { s with now := time }
      ((s.dueAt time).foldl State.wake { s with now := time }) :=
    (Wakes.refl _).wakeAll fun τ due ↦ present_of_due due
  have workers := congrArg State.workers (bare_wakeAll { s with now := time } (s.dueAt time))
  have callers := congrArg State.callers (bare_wakeAll { s with now := time } (s.dueAt time))
  unfold State.jump
  dsimp only
  generalize (s.dueAt time).foldl State.wake { s with now := time } = u at woken workers callers ⊢
  have workers : u.workers = s.workers := workers
  have callers : u.callers = s.callers := callers
  have moved : Listed { s with now := time } := ⟨h.once, h.present⟩
  have listed := moved.wake woken (Nat.le_of_eq (congrArg _ workers.symm))
    (Nat.le_of_eq (congrArg _ callers.symm)) fun τ there ↦ by
      cases τ with
      | worker => exact Nat.lt_of_lt_of_eq there (congrArg _ workers.symm)
      | caller => exact Nat.lt_of_lt_of_eq there (congrArg _ callers.symm)
  split
  next =>
    split
    next => exact ⟨listed.once, listed.present⟩
    next => exact listed
  next => exact listed

/-- The tasks that are ready in a session are there, and each is ready once. -/
theorem Session.listed {policy : Policy} {connector : Ledger.Connector}
    (h : Session policy connector front s) : s.Listed := by
  have act {s t : State} (h : s.Listed) (acts : Acts s t) : t.Listed := by
    induction acts with
    | refl => exact h
    | tail _ act ih => exact act.listed ih
  induction h with
  | start => exact ⟨List.nodup_nil, fun _ ready ↦ absurd ready List.not_mem_nil⟩
  | step h taken ih => exact ih.step h.attended taken
  | act _ _ acts ih => exact act ih acts
  | @call front s t _ _ acts _ key request ih =>
    have after := act ih acts
    have calls : Run t { (t.addCaller { key, request }).2 with
        foreground := some t.callers.size, running := some (.caller t.callers.size) } :=
      .tail (.single (.dispatch t key request)) (.schedule rfl)
    exact ⟨after.once, fun τ ready ↦ (after.present τ ready).later calls.later⟩
  | finish _ _ ih => exact ⟨ih.once, ih.present⟩
  | jump _ _ _ ih => exact ih.jump _
  | wait _ _ _ _ ih => exact ⟨ih.once, ih.present⟩

/-- No more tasks are ready than there are. -/
theorem Listed.length_le (h : s.Listed) :
    s.ready.length ≤ s.workers.size + s.callers.size := by
  have inside : s.ready ⊆
      (List.range s.workers.size).map Task.worker ++ (List.range s.callers.size).map .caller := by
    intro τ ready
    have there := h.present τ ready
    cases τ with
    | worker w =>
      exact List.mem_append_left _ (List.mem_map.mpr ⟨w, List.mem_range.mpr there, rfl⟩)
    | caller c =>
      exact List.mem_append_right _ (List.mem_map.mpr ⟨c, List.mem_range.mpr there, rfl⟩)
  have least := (h.once.subperm inside).length_le
  rw [List.length_append, List.length_map, List.length_map, List.length_range,
    List.length_range] at least
  exact least

end Presence

end State

end Signatory.Service
