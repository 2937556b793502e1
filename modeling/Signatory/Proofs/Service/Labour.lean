import Mathlib.Algebra.Order.BigOperators.Group.Finset
import Signatory.Proofs.Service.Settling

/-!
# How much is left to do

Each worker and each caller has so much left to do, and whatever a task does leaves less to do for
all. A caller is given only so many tries; each may bring an envelope into a mailbox, and takes all
the work with it that there may be with that envelope.
-/

namespace Signatory.Service

/-- What the entries of a table count for, all together. -/
def Table.total {α : Type} (f : α → Nat) (t : Table α) : Nat :=
  ∑ i ∈ Finset.range t.size, ((t.get? i).map f).getD 0

namespace Table

variable {α : Type} {f : α → Nat} {t u : Table α}

/-- If no entry counts for more than before, the entries do not count for more all together. -/
theorem total_le (size : u.size = t.size)
    (le : ∀ {i a b}, t.get? i = some a → u.get? i = some b → f b ≤ f a) : u.total f ≤ t.total f := by
  unfold total
  rw [size]
  refine Finset.sum_le_sum fun i inside ↦ ?_
  obtain ⟨a, found⟩ := Option.isSome_iff_exists.mp (get?_isSome.mpr (Finset.mem_range.mp inside))
  have known : i < u.size := size.symm ▸ Finset.mem_range.mp inside
  obtain ⟨b, here⟩ := Option.isSome_iff_exists.mp (get?_isSome.mpr known)
  rw [found, here]
  exact le found here

/-- An entry that is put in the place of another counts instead of it. -/
theorem total_set {i : Nat} {a b : α} (found : t.get? i = some a) :
    (t.set i b).total f + f a = t.total f + f b := by
  unfold total
  rw [size_set]
  have inside := Finset.mem_range.mpr (lt_size found)
  rw [← Finset.add_sum_erase _ _ inside, ← Finset.add_sum_erase (Finset.range t.size) _ inside,
    get?_set_self found, found]
  have others : ∑ j ∈ (Finset.range t.size).erase i, (((t.set i b).get? j).map f).getD 0 =
      ∑ j ∈ (Finset.range t.size).erase i, ((t.get? j).map f).getD 0 := by
    refine Finset.sum_congr rfl fun j other ↦ ?_
    rw [get?_set_ne (Finset.ne_of_mem_erase other).symm]
  rw [others]
  simp only [Option.map_some, Option.getD_some]
  omega

/-- A new entry counts besides the others. -/
theorem total_push (a : α) : (t.push a).total f = t.total f + f a := by
  unfold total
  rw [size_push, Finset.sum_range_succ, get?_push_self]
  congr 1
  refine Finset.sum_congr rfl fun i inside ↦ ?_
  rw [get?_push, if_neg (Nat.ne_of_lt (Finset.mem_range.mp inside))]

end Table

/-- How much is left to do for a worker, if it makes at most so many attempts. -/
def Activity.toil (attempts : Nat) : Activity → Nat
  | .left _ | .died => 0
  | .idle => 1
  | .connecting .. => 2
  | .syncing _ attempt _ => 2 + (attempts - attempt)

/-- How much is left to do for a worker with what it has in its hand and in its mailbox. -/
def Worker.toil (attempts : Nat) (y : Worker) : Nat :=
  y.activity.toil attempts + (attempts + 2) * y.mailbox.queue.length

/-- How much is left to do for a caller who has so many tries. -/
def Phase.toil (attempts tries : Nat) : Phase → Nat
  | .ended _ => 0
  | .fresh => (attempts + 8) * tries + 2
  | .seeking => (attempts + 8) * tries + 1
  | .suspended _ => (attempts + 8) * (tries - 1) + (attempts + 6)
  | .awaiting _ => (attempts + 8) * (tries - 1) + 3
  | .replied .. => (attempts + 8) * (tries - 1) + 2

/-- How much is left to do for a caller, who may also have to learn when to give up. -/
def Caller.toil (attempts : Nat) (x : Caller) : Nat :=
  x.phase.toil attempts x.tries + if x.limit.isNone then 1 else 0

namespace State

variable {s t u : State} {τ : Task} {w : WorkerId} {y z : Worker} {c : CallerId} {x old : Caller}
  {a : Activity} {n : Nat}

/-- How often a lookup is attempted at most. -/
def attempts (s : State) : Nat :=
  s.policy.sync.attempts.toNat

/-- How much is left to do for all. -/
def labour (s : State) : Nat :=
  s.workers.total (Worker.toil s.attempts) + s.callers.total (Caller.toil s.attempts)

/-- How much would be left to do for all if lookups were attempted so often at most. -/
def effort (n : Nat) (s : State) : Nat :=
  s.workers.total (Worker.toil n) + s.callers.total (Caller.toil n)

theorem labour_eq (s : State) : s.labour = s.effort s.attempts :=
  rfl

section Toil

/-- A worker that has a request in its hand still has to look for something to do. -/
theorem toil_of_hand {e : Envelope} (hand : a.hand? = some e) : 2 ≤ a.toil n := by
  cases a with
  | connecting => exact Nat.le_refl 2
  | syncing => exact Nat.le_add_right 2 _
  | _ => exact absurd hand (by simp [Activity.hand?])

/-- A call that is not over has something left to do. -/
theorem toil_of_live {p : Phase} (live : p.isEnded = false) (tries : Nat) :
    0 < p.toil n tries := by
  cases p with
  | ended => exact absurd live (by simp [Phase.isEnded])
  | _ => simp [Phase.toil]

/-- A caller who gets a reply has less left to do. -/
theorem toil_reply (x : Caller) (w : WorkerId) (r : Reply) :
    (x.reply w r).toil n ≤ x.toil n := by
  unfold Caller.reply
  split
  next waits =>
    rw [Caller.toil, Caller.toil, Caller.awaits_iff.mp waits]
    simp [Phase.toil]
  next => exact Nat.le_refl _

end Toil

/-- Everyone does the same as before. -/
structure Unmoved (s t : State) : Prop where
  worker : ∀ {w y z}, s.workers.get? w = some y → t.workers.get? w = some z →
    z.activity = y.activity ∧ z.mailbox.queue = y.mailbox.queue
  caller : ∀ {c x x'}, s.callers.get? c = some x → t.callers.get? c = some x' →
    x'.phase = x.phase ∧ x'.tries = x.tries ∧ x'.limit = x.limit

theorem Unmoved.refl (s : State) : Unmoved s s where
  worker := by
    intro w y z found there
    rw [Option.some.inj (found.symm.trans there)]
    exact ⟨rfl, rfl⟩
  caller := by
    intro c x x' found here
    rw [Option.some.inj (found.symm.trans here)]
    exact ⟨rfl, rfl, rfl⟩

theorem Unmoved.trans (first : Unmoved s t) (later : s.Later t) (second : Unmoved t u) :
    Unmoved s u where
  worker := by
    intro w y z found there
    obtain ⟨y', found', -⟩ := later.workers w y found
    obtain ⟨activity, queue⟩ := first.worker found found'
    obtain ⟨activity', queue'⟩ := second.worker found' there
    exact ⟨activity'.trans activity, queue'.trans queue⟩
  caller := by
    intro c x x' found here
    obtain ⟨old, found', -⟩ := later.callers c x found
    obtain ⟨phase, tries, limit⟩ := first.caller found found'
    obtain ⟨phase', tries', limit'⟩ := second.caller found' here
    exact ⟨phase'.trans phase, tries'.trans tries, limit'.trans limit⟩

/-- As time passes there is less to do, or everyone does the same as before. -/
structure Dwindles (n : Nat) (s t : State) : Prop where
  later : s.Later t
  nearer : t.effort n < s.effort n ∨ t.effort n = s.effort n ∧ Unmoved s t

theorem Dwindles.refl (s : State) : Dwindles n s s :=
  ⟨.refl s, .inr ⟨rfl, .refl s⟩⟩

theorem Dwindles.trans (first : Dwindles n s t) (second : Dwindles n t u) : Dwindles n s u where
  later := first.later.trans second.later
  nearer := by
    rcases first.nearer with less | ⟨same, unmoved⟩
    · exact .inl (second.nearer.elim (Nat.lt_trans · less) fun equal ↦ equal.1 ▸ less)
    · rw [← same]
      exact second.nearer.imp_right fun ⟨equal, still⟩ ↦
        ⟨equal, unmoved.trans first.later still⟩

/-- Less is left to do if that is so for one worker. -/
theorem effort_lt_of_worker (found : s.workers.get? w = some y)
    (workers : t.workers = s.workers.set w z) (less : z.toil n < y.toil n)
    (callers : t.callers.total (Caller.toil n) ≤ s.callers.total (Caller.toil n)) :
    t.effort n < s.effort n := by
  have whole := Table.total_set (f := Worker.toil n) (b := z) found
  rw [effort, effort, workers]
  omega

/-- Less is left to do if that is so for one caller. -/
theorem effort_lt_of_caller (known : s.callers.get? c = some old)
    (callers : t.callers = s.callers.set c x) (less : x.toil n < old.toil n)
    (workers : t.workers.total (Worker.toil n) ≤ s.workers.total (Worker.toil n)) :
    t.effort n < s.effort n := by
  have whole := Table.total_set (f := Caller.toil n) (b := x) known
  rw [effort, effort, callers]
  omega

/-- Less is left to do if that is so for a caller and a worker together. -/
theorem effort_lt_of_both (known : s.callers.get? c = some old)
    (found : s.workers.get? w = some y) (callers : t.callers = s.callers.set c x)
    (workers : t.workers = s.workers.set w z)
    (less : z.toil n + x.toil n < y.toil n + old.toil n) : t.effort n < s.effort n := by
  have whole := Table.total_set (f := Worker.toil n) (b := z) found
  have all := Table.total_set (f := Caller.toil n) (b := x) known
  rw [effort, effort, callers, workers]
  omega

/-- Callers who get a reply have no more left to do. -/
theorem total_reply (callers : Table Caller) (c : CallerId) (w : WorkerId) (r : Reply) :
    (callers.update c (Caller.reply w r)).total (Caller.toil n) ≤ callers.total (Caller.toil n) := by
  refine Table.total_le (Table.size_update _ _ _) fun {i a b} found here ↦ ?_
  rw [Table.get?_update, found, Option.map_some] at here
  split at here
  next => exact Option.some.inj here ▸ toil_reply a w r
  next => exact Nat.le_of_eq (congrArg _ (Option.some.inj here).symm)

theorem total_replyAll (callers : Table Caller) (w : WorkerId) (r : Reply) (es : List Envelope) :
    (replyAll w r es callers).total (Caller.toil n) ≤ callers.total (Caller.toil n) := by
  induction es generalizing callers with
  | nil => exact Nat.le_refl _
  | cons e es ih => exact Nat.le_trans (ih _) (total_reply callers e.caller w r)

/-- A worker that takes an envelope out of its mailbox has less left to do, whatever it goes on to
do with it. -/
theorem toil_of_take {e : Envelope} {rest : Mailbox} (takes : Takes s w y e rest)
    (queue : z.mailbox.queue = rest.queue)
    (goes : z.activity.toil n ≤ 2 + (n - 1)) : z.toil n < y.toil n := by
  rw [Worker.toil, Worker.toil, takes.idle, queue, Mailbox.queue_of_pop? takes.popped,
    List.length_cons, Activity.toil, Nat.mul_add]
  omega

/-- A caller that offers its request to a worker has a try left. -/
theorem Offers.tries (filed : s.Filed) (offers : Offers s c x w) : ∃ k, x.tries = k + 1 := by
  rcases offers.target with direct | ⟨-, some_try, -⟩
  · exact absurd ((filed.indirect offers.found).symm.trans direct) (by simp)
  · exact Nat.exists_eq_succ_of_ne_zero some_try

/-- A worker makes another lookup after one that failed, and nothing else changes. -/
structure Repeats (s : State) (τ : Task) (t : State) : Prop where
  repeated : ∃ w y e attempt alarm next, τ = .worker w ∧ s.workers.get? w = some y ∧
    y.activity = .syncing e attempt alarm ∧ attempt < s.attempts ∧
    t.workers = s.workers.set w { y with activity := .syncing e (attempt + 1) next }
  callers : t.callers = s.callers
  policy : t.policy = s.policy

/-- No more is left to do when a worker makes another lookup. -/
theorem Repeats.effort_le (repeats : Repeats s τ t) (n : Nat) : t.effort n ≤ s.effort n := by
  obtain ⟨w, y, e, attempt, alarm, next, -, found, syncing, -, workers⟩ := repeats.repeated
  have whole := Table.total_set (f := Worker.toil n)
    (b := { y with activity := .syncing e (attempt + 1) next }) found
  have fewer : Worker.toil n { y with activity := .syncing e (attempt + 1) next } ≤ y.toil n := by
    rw [Worker.toil, Worker.toil, syncing]
    simp only [Activity.toil]
    omega
  rw [effort, effort, workers, repeats.callers]
  omega

/-- Less is left to do when a worker makes another lookup. -/
theorem Repeats.labour_lt (repeats : Repeats s τ t) : t.labour < s.labour := by
  obtain ⟨w, y, e, attempt, alarm, next, -, found, syncing, more, workers⟩ := repeats.repeated
  have same : t.attempts = s.attempts := congrArg (·.sync.attempts.toNat) repeats.policy
  rw [labour_eq, labour_eq, same]
  refine effort_lt_of_worker found workers (Nat.add_lt_add_right ?_ _)
    (Nat.le_of_eq (congrArg _ repeats.callers))
  simp only [syncing, Activity.toil]
  omega

/-- Less is left to do after a change that creates no worker, unless everyone does the same as
before, or a worker makes another lookup. -/
theorem Change.dwindles (filed : s.Filed) (size : t.workers.size = s.workers.size)
    (change : Change s τ t) : (∀ n, Dwindles n s t) ∨ Repeats s τ t := by
  by_cases repeats : Repeats s τ t
  · exact .inr repeats
  refine .inl fun n ↦ ⟨change.later, ?_⟩
  have look : Activity.idle.toil n ≤ 2 + (n - 1) :=
    Nat.le_trans (Nat.le_succ 1) (Nat.le_add_right 2 _)
  have stop {x : Caller} {ending : Ending} (live : x.phase.isEnded = false) :
      Caller.toil n { x with phase := .ended ending } < x.toil n :=
    Nat.add_lt_add_right (toil_of_live live _) _
  cases change with
  | rest => exact .inr ⟨rfl, .refl s⟩
  | leave found idle =>
    refine .inl (effort_lt_of_worker found rfl ?_ (total_replyAll _ _ _ _))
    rw [Worker.toil, Worker.toil, idle]
    simp [Activity.toil, Mailbox.close]
  | @die w y e mailbox found cause =>
    refine .inl (effort_lt_of_worker found rfl ?_ (total_replyAll _ _ _ _))
    have some_work : 0 < y.activity.toil n + (n + 2) * y.mailbox.queue.length := by
      cases cause with
      | crashed connecting => simp [connecting, Activity.toil]
      | outOfReach takes => simp [takes.idle, Activity.toil]
    simpa [Worker.toil, Activity.toil, Mailbox.close] using some_work
  | skip takes =>
    refine .inl (effort_lt_of_worker takes.found rfl ?_ (Nat.le_refl _))
    exact toil_of_take takes (Mailbox.grant_queue _) (takes.idle ▸ look)
  | misroute takes waits foreign =>
    exact absurd (filed.matched takes.found (takes.envelopes ▸ List.mem_cons_self)) foreign
  | connect accepts =>
    refine .inl (effort_lt_of_worker accepts.found rfl ?_ (Nat.le_refl _))
    exact toil_of_take accepts.toTakes (Mailbox.grant_queue _) (Nat.le_add_right _ _)
  | lookup accepts =>
    refine .inl (effort_lt_of_worker accepts.found rfl ?_ (Nat.le_refl _))
    exact toil_of_take accepts.toTakes (Mailbox.grant_queue _) (Nat.le_refl _)
  | serve accepts =>
    refine .inl (effort_lt_of_worker accepts.found rfl ?_ (total_reply _ _ _ _))
    exact toil_of_take accepts.toTakes (Mailbox.grant_queue _) look
  | finish found finishes =>
    refine .inl (effort_lt_of_worker found rfl ?_ (total_reply _ _ _ _))
    exact Nat.add_lt_add_right (toil_of_hand finishes.hand) _
  | again found syncing due known undecided =>
    have more := attempt_lt_of_again undecided
    exact absurd ⟨⟨_, _, _, _, _, _, rfl, found, syncing, more, rfl⟩, rfl, rfl⟩ repeats
  | begin known fresh =>
    refine .inl (effort_lt_of_caller known rfl (Nat.add_lt_add_right ?_ _) (Nat.le_refl _))
    simp [fresh, Phase.toil]
  | beginDirect known fresh direct => exact absurd ((filed.indirect known).symm.trans direct) (by simp)
  | spawn => exact absurd size (by simp)
  | push offers found =>
    refine .inl (effort_lt_of_both offers.found found rfl rfl ?_)
    obtain ⟨k, tries⟩ := offers.tries filed
    simp only [Worker.toil, Mailbox.push, List.length_append, List.length_singleton, Caller.toil,
      offers.seeking, Phase.toil, tries, Nat.mul_succ, Nat.succ_sub_one]
    omega
  | suspend offers found =>
    refine .inl (effort_lt_of_both offers.found found rfl rfl ?_)
    obtain ⟨k, tries⟩ := offers.tries filed
    simp only [Worker.toil, Mailbox.suspend, Caller.toil, offers.seeking, Phase.toil, tries,
      Nat.mul_succ, Nat.succ_sub_one]
    omega
  | refuse offers =>
    refine .inl (effort_lt_of_caller offers.found rfl ?_ (Nat.le_refl _))
    obtain ⟨k, tries⟩ := offers.tries filed
    simp only [Caller.toil, offers.seeking, Phase.toil, tries, Nat.mul_succ, Nat.succ_sub_one]
    omega
  | refuseDirect offers _ direct =>
    exact absurd ((filed.indirect offers.found).symm.trans direct) (by simp)
  | occupy known suspended found =>
    refine .inl (effort_lt_of_both known found rfl rfl ?_)
    simp only [Worker.toil, Mailbox.occupy, List.length_append, List.length_singleton, Caller.toil,
      suspended, Phase.toil, Nat.mul_succ]
    omega
  | turnAway known suspended =>
    refine .inl (effort_lt_of_caller known rfl (Nat.add_lt_add_right ?_ _) (Nat.le_refl _))
    simp only [suspended, Phase.toil]
    omega
  | retry known replied =>
    refine .inl (effort_lt_of_caller known rfl (Nat.add_lt_add_right ?_ _) (Nat.le_refl _))
    simp only [replied, Phase.toil]
    omega
  | @limit c x w limit alarm known waiting direct limited early due =>
    rcases due with set | ⟨unset, -⟩
    · have same : s.callers.set c { x with limit := some alarm } = s.callers :=
        Table.update_self fun x' known' ↦ by
          obtain rfl := Option.some.inj (known.symm.trans known')
          rw [← set]
      rw [same]
      exact .inr ⟨rfl, .refl s⟩
    · refine .inl (effort_lt_of_caller known rfl (Nat.add_lt_add_left ?_ _) (Nat.le_refl _))
      simp [unset]
  | conclude known cause =>
    exact .inl (effort_lt_of_caller known rfl (stop cause.live) (Nat.le_refl _))
  | notFound known seeking =>
    refine .inl (effort_lt_of_caller known rfl (stop ?_) (Nat.le_refl _))
    rw [seeking]
    rfl
  | lose known replied =>
    refine .inl (effort_lt_of_caller known rfl (stop ?_) (Nat.le_refl _))
    rw [replied]
    rfl
  | giveUp known live =>
    exact .inl (effort_lt_of_caller known rfl (stop live) (Nat.le_refl _))
  | withdraw known suspended =>
    refine .inl (effort_lt_of_caller known rfl (stop ?_) ?_)
    · rw [suspended]
      rfl
    · refine Table.total_le (Table.size_update _ _ _) fun {v y z} found there ↦ ?_
      rw [Table.get?_update, found, Option.map_some] at there
      split at there
      next =>
        obtain rfl := Option.some.inj there
        exact Nat.le_of_eq (by simp only [Worker.toil, Mailbox.grant_queue]; rfl)
      next => exact Nat.le_of_eq (congrArg _ (Option.some.inj there).symm)

end State

end Signatory.Service
