import Signatory.Proofs.Service.Expiry
import Signatory.Proofs.Service.Resting

/-!
# Removing a worker

A worker that is removed is not named any more, so nobody else comes to it, and it takes nothing out
of its mailbox. It answers the request in its hand and leaves; then every other request that it had
comes back, without having been accepted, and its caller looks for another worker. Whatever the
worker does in the meantime, and whatever its callers do while they are with it, leaves the
directory and the other workers as they are.
-/

namespace Signatory.Service.State

variable {front : List CallerId} {o s t u : State} {τ : Task} {w v : WorkerId} {y z : Worker}
  {c : CallerId} {x old now : Caller} {key : String}

section Parting

/-- What a worker that has been told to leave can come to do. -/
inductive Wanes (a : Activity) : Activity → Prop
  | goes_on : Wanes a a
  | syncing {e : Envelope} {attempt : Nat} {alarm : Alarm} : Wanes a (.syncing e attempt alarm)
  | idle : Wanes a .idle
  | left (reason : ExitReason) : Wanes a (.left reason)
  | died {e : Envelope} {k : Credentials} {alarm : Alarm}
    (crash : a = .connecting e k .crash alarm) : Wanes a .died

/-- A worker that has been told to leave goes on to do so. -/
theorem Wanes.winds {a b b' : Activity} (h : Wanes a b) (winds : Winds s t w b b') :
    Wanes a b' := by
  cases winds with
  | same => exact h
  | leave reason => exact .left reason
  | die => cases h with | goes_on => exact .died rfl
  | again => exact .syncing
  | finish => exact .idle

/-- What has become of a worker since it was removed: it has accepted nothing, the request in its
hand is settled, it has died only if its connector has crashed, it is not named for any key, and
nobody has come to it. -/
structure Dismissed (s t : State) (w : WorkerId) (y : Worker) : Prop where
  told : ∀ z, t.workers.get? w = some z → z.cancelled = true
  accepted : t.acceptances w = s.acceptances w
  hand : ∀ e, y.activity.hand? = some e → Settled s t w y e
  wanes : ∀ z, t.workers.get? w = some z → Wanes y.activity z.activity
  unnamed : ∀ key, t.find? key ≠ some w
  apart : ∀ c x, t.callers.get? c = some x → x.phase.host? = some w →
    ∃ old, s.callers.get? c = some old ∧ old.phase.host? = some w

/-- Whoever is with a worker was with it before, or offers its request to it. -/
theorem Fares.hosted (fares : Fares s t c old x) (host : x.phase.host? = some w) :
    old.phase.host? = some w ∨ Offers s c old w := by
  cases fares with
  | stay => exact .inl host
  | begin => exact absurd host (by simp [Phase.host?])
  | refuse => exact absurd host (by simp [Phase.host?])
  | back => exact absurd host (by simp [Phase.host?])
  | push offers => exact .inr (Option.some.inj host ▸ offers)
  | suspend offers => exact .inr (Option.some.inj host ▸ offers)
  | enqueue suspended => exact .inl (suspended ▸ host)
  | reply => exact absurd host (by simp [Phase.host?])
  | limit => exact .inl host
  | drop => exact .inl host
  | stop => exact absurd host (by simp [Phase.host?])

/-- A worker that has been removed is not brought back by a change. -/
theorem Change.dismissed (h : Dismissed o s w y) (filed : s.Filed)
    (found : s.workers.get? w = some z) (change : Change s τ t) : Dismissed o t w y := by
  have retires : Retires s t w := change.retires h.told
  obtain ⟨z', there, winds⟩ := retires.wind found
  obtain ⟨z'', there', later⟩ := retires.later.workers w z found
  obtain rfl := Option.some.inj (there.symm.trans there')
  refine ⟨?_, retires.accepted.trans h.accepted, fun e hand ↦ (h.hand e hand).keep hand retires,
    ?_, ?_, ?_⟩
  · intro other found'
    obtain rfl := Option.some.inj (there.symm.trans found')
    exact later.cancelled (h.told z found)
  · intro other found'
    obtain rfl := Option.some.inj (there.symm.trans found')
    exact (h.wanes z found).winds winds
  · intro k named
    rcases change.named named with before | ⟨new, -⟩
    · exact h.unnamed k before
    · exact absurd (new ▸ Table.lt_size found) (Nat.lt_irrefl _)
  · intro c x here host
    obtain ⟨old, known, fares⟩ := change.fares here
    -- Whoever has just come to it was sent there by the directory, where it is not named.
    rcases fares.hosted host with before | offers
    · exact h.apart c old known before
    · rcases offers.target with direct | ⟨-, -, -, named⟩
      · exact absurd (direct.symm.trans (filed.indirect known)) (by simp)
      · exact absurd named (h.unnamed _)

/-- A worker that has been removed is not brought back by a use. -/
theorem Use.dismissed (h : Dismissed o s w y) (use : Use s t) : Dismissed o t w y := by
  have retires : Retires s t w := use.retires
  refine ⟨?_, retires.accepted.trans h.accepted, fun e hand ↦ (h.hand e hand).keep hand retires,
    ?_, fun k named ↦ h.unnamed k (use.named named), ?_⟩
  · intro z there
    obtain ⟨y', found, rfl | rfl⟩ := use.of_worker there
    · exact h.told _ found
    · rfl
  · intro z there
    obtain ⟨y', found, rfl | rfl⟩ := use.of_worker there
    · exact h.wanes _ found
    · exact h.wanes y' found
  · intro c x here host
    rcases use.becomes here with ⟨-, key, request, rfl⟩ | ⟨old, known, rfl | rfl⟩
    · exact absurd host (by simp [Phase.host?])
    · exact h.apart c _ known host
    · exact h.apart c _ known host

/-- A worker that has just been removed. -/
theorem Reachable.dismissed (h : s.Reachable) (named : s.find? key = some w)
    (found : (s.remove key).2.workers.get? w = some y) :
    Dismissed (s.remove key).2.bare (s.remove key).2.bare w y where
  told := by
    intro z there
    rw [bare_remove named] at there
    have there := (Table.get?_update ..).symm.trans there
    rw [if_pos rfl] at there
    obtain ⟨z', -, rfl⟩ := Option.map_eq_some_iff.mp there
    rfl
  accepted := rfl
  hand := fun e hand ↦ .held found (.inl rfl) rfl .inl
  wanes := fun z there ↦ Option.some.inj (found.symm.trans there) ▸ .goes_on
  unnamed := by
    intro k named'
    rw [find?_eq, bare_remove named] at named'
    have named' := (lookUp_filter s.directory key k).symm.trans named'
    split at named'
    next => exact absurd named' (by simp)
    next other =>
      -- The worker is named for its own key only.
      obtain ⟨z, there, own⟩ := h.ordered.filed.named named
      obtain ⟨z', there', own'⟩ := h.ordered.filed.named named'
      obtain rfl := Option.some.inj (there.symm.trans there')
      exact other (own'.symm.trans own)
  apart := fun c x known host ↦ ⟨x, known, host⟩

theorem Dismissed.of_bare (h : Dismissed s.bare t.bare w y) : Dismissed s t w y :=
  ⟨h.told, h.accepted, fun e hand ↦ (h.hand e hand).of_bare, h.wanes, h.unnamed, h.apart⟩

/-- Whatever happens, a worker that has been removed is not brought back. -/
theorem Run.dismissed (h : s.Reachable) (start : Dismissed o s.bare w y)
    (found : s.workers.get? w = some y) (run : Run s t) : Dismissed o t.bare w y := by
  have kept := Run.preserve
    (P := fun u ↦ u.Filed ∧ (∃ z, u.workers.get? w = some z) ∧ Dismissed o u w y)
    (fun ⟨filed, ⟨z, found⟩, h⟩ change ↦ ⟨change.filed filed,
      (change.later.workers w z found).imp fun _ ↦ And.left, change.dismissed h filed found⟩)
    (fun ⟨filed, ⟨z, found⟩, h⟩ use ↦ ⟨use.filed filed,
      (use.later.workers w z found).imp fun _ ↦ And.left, use.dismissed h⟩)
    ⟨h.bare.ordered.filed, ⟨y, found⟩, start⟩ run
  exact kept.2.2

end Parting

section Stepping

/-- A task does one thing in one step unless it is a caller that looks for a worker. -/
theorem Reachable.change_of_step (h : s.Reachable) (running : s.running = some τ)
    (taken : s.step = some t)
    (decided : ∀ c x, τ = .caller c → s.callers.get? c = some x → x.phase ≠ .seeking) :
    Change s.bare τ t.bare := by
  cases τ with
  | worker w => exact h.change_of_worker running taken
  | caller c =>
    unfold State.step at taken
    rw [running] at taken
    obtain rfl := Option.some.inj taken
    exact (stepCaller_stir running fun x found seeking ↦
      absurd seeking (decided c x rfl found)).change

/-- What becomes of a caller that does not look for a worker, whatever happens. -/
theorem Next.fares (h : s.Reachable) (next : Next s t) (found : s.callers.get? c = some old)
    (decided : old.phase ≠ .seeking) :
    ∃ x, t.callers.get? c = some x ∧ Fares s.bare t.bare c old x := by
  rcases next.step_or_use with taken | use
  · cases running : s.running with
    | none =>
      rcases step_changes taken with ⟨τ, running', -⟩ | same
      · exact absurd (running.symm.trans running') (by simp)
      · have same : t.callers = s.callers := (congrArg State.callers same :)
        exact ⟨old, same ▸ found, .stay⟩
    | some τ =>
      by_cases own : τ = .caller c
      · have change := h.change_of_step running taken fun d x is known ↦ by
          obtain rfl := Task.caller.inj (own.symm.trans is)
          exact Option.some.inj (found.symm.trans known) ▸ decided
        exact change.advances.fare found
      · cases τ with
        | worker v => exact (h.change_of_worker running taken).advances.fare found
        | caller d =>
          have other : d ≠ c := fun same ↦ own (same ▸ rfl)
          have same := (step_stirs running taken).changes.callers_of_caller other
          exact ⟨old, same.trans found, .stay⟩
  · exact use.advances.fare found

end Stepping

section Freeing

/-- The request of a caller has come back to it without having been accepted, and it looks for
another worker. -/
def Returned (s t : State) (c : CallerId) (x : Caller) : Prop :=
  ∃ u now, Run s u ∧ Run u t ∧ u.callers.get? c = some now ∧ now.phase = .seeking ∧
    now.tries = x.tries - 1 ∧ ∀ w, c ∉ u.acceptances w

/-- The request of a caller was lost when a worker died. -/
structure Lost (t : State) (w : WorkerId) (c : CallerId) : Prop where
  died : ∃ z, t.workers.get? w = some z ∧ z.activity = .died
  known : ∃ now, t.callers.get? c = some now ∧ (now.phase = .replied w .lost ∨
    now.phase = .ended (.result (.error (.violation
      (.workerStopped now.key now.request.operation)))))

/-- What has become of a request that a worker had not accepted when it was removed. -/
inductive Freed (s t : State) (w : WorkerId) (c : CallerId) (x : Caller) : Prop
  | waits {now : Caller} (found : t.callers.get? c = some now)
    (held : now.phase.host? = some w ∨ now.phase = .replied w .handedBack)
    (tries : now.tries = x.tries) (unaccepted : ∀ w, c ∉ t.acceptances w)
  | returned (back : Returned s t c x)
  | gaveUp (gone : t.GaveUp c)
  | lost (lost : Lost t w c)

/-- Nobody has accepted a request that a worker has not accepted and that is with this worker, or
has come back from it. -/
theorem Reachable.unaccepted (h : s.Reachable) (known : s.callers.get? c = some x)
    (held : x.phase.host? = some w ∨ x.phase = .replied w .handedBack)
    (spared : c ∉ s.acceptances w) (v : WorkerId) : c ∉ s.acceptances v := by
  intro accepted
  revert accepted
  have credited (left : credit s.workers c (some x.phase) = 1) : c ∉ s.acceptances v := by
    rw [mem_acceptances]
    exact h.sole.not_accepted ((phase?_of_found known).symm ▸ left) v
  cases phase : x.phase with
  | suspended => exact credited (by rw [phase]; rfl)
  | replied w r =>
    rcases held with host | back
    · exact absurd host (by simp [phase, Phase.host?])
    · exact credited (by rw [back]; rfl)
  | awaiting w' =>
    have host := held.resolve_right (by simp [phase])
    rw [phase] at host
    obtain rfl := Option.some.inj host
    have owned := h.ordered.owned
    obtain ⟨y, found⟩ := owned.present known (congrArg Phase.host? phase)
    obtain ⟨e, inside, rfl⟩ := List.mem_map.mp (held_of_awaiting owned known phase found)
    rcases List.mem_append.mp inside with hand | queued
    · -- What is in its hand it has accepted.
      obtain ⟨client, order, current⟩ := h.settles w'
      have hand := Option.mem_toList.mp hand
      have client : client = some e.caller := by
        rw [current fun z there died ↦ ?_, client?, found, Option.bind_some, hand]
        · rfl
        · obtain rfl := Option.some.inj (found.symm.trans there)
          exact absurd hand (by simp [died, Activity.hand?])
      exact absurd (order ▸ List.mem_append_right _ (by simp [client])) spared
    · rw [mem_acceptances]
      exact Lodged.not_accepted (.queue phase found (List.mem_map_of_mem queued)) h.sole known v
  | _ => rcases held with host | back <;> simp_all [Phase.host?]

/-- Whoever has given up has done so for good, whatever happens. -/
theorem Run.gaveUp (gone : s.GaveUp c) (run : Run s t) : t.GaveUp c := by
  have kept := Run.preserve (P := fun u ↦ u.GaveUp c) (fun gone change ↦ gone.keep change.advances)
    (fun gone use ↦ gone.keep use.advances) gone.bare run
  exact kept.of_bare

/-- A request that was lost stays so, unless its caller gives up. -/
theorem Lost.next (h : s.Reachable) (lost : Lost s w c) (next : Next s t) :
    Lost t w c ∨ t.GaveUp c := by
  have later : s.Later t := Run.later (.single next)
  obtain ⟨⟨y, found, died⟩, now, known, phase⟩ := lost
  have dead : ∃ z, t.workers.get? w = some z ∧ z.activity = .died := by
    obtain ⟨z, there, later⟩ := later.workers w y found
    exact ⟨z, there, (later.past (by rw [died]; rfl)).trans died⟩
  rcases phase with replied | past
  · obtain ⟨x, here, fares⟩ := next.fares h known (by simp [replied])
    rcases fares.of_replied replied (by simp) with still | ⟨ending, ends, rfl⟩
    · exact .inl ⟨dead, _, here, .inl still⟩
    · rcases ends.cause (by simp [replied]) with cause | answered | ⟨-, -, rfl⟩ | ⟨direct, -⟩
      · exact .inr (cause.gaveUp later.policy here)
      · exact absurd answered (by simp [replied])
      · exact .inl ⟨dead, _, here, .inr rfl⟩
      · exact absurd (h.ordered.filed.indirect known) direct
  · obtain ⟨x, here, later⟩ := later.callers c now known
    refine .inl ⟨dead, x, here, .inr ?_⟩
    rw [later.ended (by rw [past]; rfl), later.key, later.request, past]

/-- A request that a worker had not accepted when it was removed goes on to come back. -/
theorem Freed.next (h : s.Reachable) (run : Run o s) (freed : Freed o s w c x)
    (dismissed : Dismissed o.bare t.bare w y) (spared : c ∉ o.acceptances w) (next : Next s t) :
    Freed o t w c x := by
  have reachable : t.Reachable := h.run (.single next)
  have later : s.Later t := Run.later (.single next)
  cases freed with
  | returned back =>
    obtain ⟨u, now, before, after, back⟩ := back
    exact .returned ⟨u, now, before, after.tail next, back⟩
  | gaveUp gone => exact .gaveUp (Run.gaveUp gone (.single next))
  | lost lost => exact (lost.next h next).elim .lost .gaveUp
  | @waits now found held tries unaccepted =>
    have spared' : c ∉ t.acceptances w := (dismissed.accepted : t.acceptances w = _) ▸ spared
    have other {p : Phase} (same : now.phase = p) : p.host? = some w ∨ p = .replied w .handedBack :=
      same ▸ held
    have decided : now.phase ≠ .seeking :=
      fun seeking ↦ absurd (other seeking) (by simp [Phase.host?])
    -- It leaves the worker only by a reply that is no answer, or because there is no room.
    obtain ⟨next', here, fares⟩ := next.fares h found decided
    have still (held : next'.phase.host? = some w ∨ next'.phase = .replied w .handedBack)
        (same : next'.tries = now.tries) : Freed o t w c x :=
      .waits here held (same.trans tries) (reachable.unaccepted here held spared')
    cases fares with
    | stay => exact still held rfl
    | limit => exact still held rfl
    | drop => exact still held rfl
    | begin fresh => exact absurd (other fresh) (by simp [Phase.host?])
    | refuse offers => exact absurd offers.seeking decided
    | push offers => exact absurd offers.seeking decided
    | suspend offers => exact absurd offers.seeking decided
    | back refused =>
      refine .returned ⟨t, _, run.tail next, .refl, here, rfl, by rw [tries], fun v ↦ ?_⟩
      rw [mem_acceptances]
      exact reachable.sole.not_accepted (by rw [phase?_of_found here]; rfl) v
    | enqueue suspended =>
      have host := (other suspended).resolve_right (by simp)
      exact still (.inl host) rfl
    | reply awaiting replies =>
      have host := (other awaiting).resolve_right (by simp)
      obtain rfl := Option.some.inj host
      cases replies with
      | answered r =>
        exact absurd (accepted_of_replied (reachable.settles _) reachable.heard here rfl) spared'
      | handedBack => exact still (.inr rfl) rfl
      | lost found died => exact .lost ⟨⟨_, found, died⟩, _, here, .inl rfl⟩
    | stop ends =>
      rcases ends.cause decided with cause | ⟨v, r, replied, -⟩ | ⟨v, replied, -⟩ | ⟨direct, -⟩
      · exact .gaveUp (cause.gaveUp later.policy here)
      · exact absurd (other replied) (by simp [Phase.host?])
      · exact absurd (other replied) (by simp [Phase.host?])
      · exact absurd (h.ordered.filed.indirect found) direct

/-- What has become of a request that a worker had not accepted when it was removed. -/
theorem Run.freed (h : o.Reachable) (start : Dismissed o.bare o.bare w y)
    (found : o.workers.get? w = some y) (known : o.callers.get? c = some x)
    (host : x.phase.host? = some w) (lodged : o.Lodged c x) (run : Run o t) : Freed o t w c x := by
  have unaccepted (v : WorkerId) : c ∉ o.acceptances v := by
    rw [mem_acceptances]
    exact lodged.not_accepted h.sole known v
  -- Along the run the worker stays dismissed, which is what one more step needs to know.
  induction run with
  | refl => exact .waits known (.inl host) rfl unaccepted
  | tail run next ih =>
    exact ih.next (h.run run) run (Run.dismissed h start found (run.tail next)) (unaccepted w) next

end Freeing

section Keeping

/-- Whether what a task does is what a worker does, or a caller that is with the worker or has a
reply from it. -/
def Concerns (s : State) (w : WorkerId) : Task → Prop
  | .worker v => v = w
  | .caller c => ∃ x, s.callers.get? c = some x ∧
      (x.phase.host? = some w ∨ ∃ r, x.phase = .replied w r)

/-- What a worker does that is not named leaves the directory as it is. -/
theorem Change.directory_of_worker (change : Change s (.worker w) t)
    (unnamed : ∀ key, s.find? key ≠ some w) : t.directory = s.directory := by
  cases change with
  | leave => exact if_neg (unnamed _)
  | _ => rfl

/-- What a caller does that is with a worker, or has a reply from it, leaves the directory as it is
if that worker is not named, and the other workers as they are. -/
theorem Change.kept_of_caller (change : Change s (.caller c) t)
    (unnamed : ∀ key, s.find? key ≠ some w) (known : s.callers.get? c = some x)
    (concerns : x.phase.host? = some w ∨ ∃ r, x.phase = .replied w r) :
    t.directory = s.directory ∧ ∀ v, v ≠ w → t.workers.get? v = s.workers.get? v := by
  have own {old : Caller} {p : Phase} (found : s.callers.get? c = some old)
      (phase : old.phase = p) : p.host? = some w ∨ ∃ r, p = .replied w r := by
    obtain rfl := Option.some.inj (known.symm.trans found)
    exact phase ▸ concerns
  cases change with
  | spawn found seeking => exact absurd (own found seeking) (by simp [Phase.host?])
  | push offers => exact absurd (own offers.found offers.seeking) (by simp [Phase.host?])
  | suspend offers => exact absurd (own offers.found offers.seeking) (by simp [Phase.host?])
  | refuse offers => exact absurd (own offers.found offers.seeking) (by simp [Phase.host?])
  | occupy found suspended =>
    have host := (own found suspended).resolve_right (by simp)
    obtain rfl := Option.some.inj host
    exact ⟨rfl, fun v other ↦ Table.get?_set_ne (Ne.symm other)⟩
  | turnAway found suspended =>
    have host := (own found suspended).resolve_right (by simp)
    obtain rfl := Option.some.inj host
    exact ⟨if_neg (unnamed _), fun _ _ ↦ rfl⟩
  | lose found replied =>
    obtain ⟨r, same⟩ := (own found replied).resolve_left (by simp [Phase.host?])
    obtain ⟨rfl, -⟩ := Phase.replied.inj same
    exact ⟨if_neg (unnamed _), fun _ _ ↦ rfl⟩
  | withdraw found suspended =>
    have host := (own found suspended).resolve_right (by simp)
    obtain rfl := Option.some.inj host
    refine ⟨rfl, fun v other ↦ ?_⟩
    rw [Table.get?_update, if_neg (Ne.symm other)]
  | _ => exact ⟨rfl, fun _ _ ↦ rfl⟩

/-- What a worker does that is not named, and what its callers do, leaves the directory and the
other workers as they are. -/
theorem Reachable.kept (h : s.Reachable) (unnamed : ∀ key, s.find? key ≠ some w)
    (running : s.running = some τ) (concerns : s.Concerns w τ) (taken : s.step = some t) :
    t.directory = s.directory ∧ ∀ v, v ≠ w → t.workers.get? v = s.workers.get? v := by
  cases τ with
  | worker w' =>
    obtain rfl : w' = w := concerns
    have change := h.change_of_worker running taken
    exact ⟨change.directory_of_worker unnamed, fun v other ↦ change.others other⟩
  | caller c =>
    obtain ⟨x, known, concerns⟩ := concerns
    have change := h.change_of_step running taken fun d x' is found seeking ↦ by
      obtain rfl := Task.caller.inj is
      obtain rfl := Option.some.inj (known.symm.trans found)
      exact absurd concerns (by simp [seeking, Phase.host?])
    exact change.kept_of_caller unnamed known concerns

end Keeping

section Landing

/-- A caller that offers its request to a worker whose mailbox is open is with it then. -/
theorem offer_lands (found : s.workers.get? w = some y) (opened : y.mailbox.closed = false)
    (known : s.callers.get? c = some x) :
    (s.offer c x w).directory = s.directory ∧
      ∃ now, (s.offer c x w).callers.get? c = some now ∧ now.phase.host? = some w := by
  have here (f : Caller → Caller) : (s.callers.update c f).get? c = some (f x) :=
    Table.get?_update_self known
  unfold offer
  dsimp only
  rw [show (s.log (.offered c w)).workers.get? w = some y from found]
  dsimp only
  rw [if_neg (by simp [opened])]
  split
  next =>
    have same := bare_enqueue (s.log (.offered c w)) w c x Mailbox.push
    refine ⟨(congrArg State.directory same :), { x with phase := .awaiting w }, ?_, rfl⟩
    exact (congrArg (·.callers.get? c) same :).trans (here _)
  next => exact ⟨rfl, _, here _, rfl⟩

/-- A caller that offers its request to a worker created for it is with that worker then. -/
theorem offerNew_lands (known : s.callers.get? c = some x)
    (small : s.policy.queueCapacity ≤ capacityLimit) :
    (s.offerNew c x).find? x.key = some s.workers.size ∧
      ∃ now, (s.offerNew c x).callers.get? c = some now ∧
        now.phase.host? = some s.workers.size := by
  have made := bare_spawn s x.key
  have found : (s.spawn x.key).2.workers.get? s.workers.size = some (s.newWorker x.key) := by
    refine (congrArg (·.workers.get? s.workers.size) made :).trans ?_
    exact (Table.get?_push ..).trans (if_pos rfl)
  have known : (s.spawn x.key).2.callers.get? c = some x :=
    (congrArg (·.callers.get? c) made :).trans known
  have entry : (s.spawn x.key).2.directory =
      (x.key, s.workers.size) :: s.directory.filter (·.1 ≠ x.key) := congrArg State.directory made
  obtain ⟨directory, lands⟩ := offer_lands found rfl known
  have offered : s.offerNew c x = (s.spawn x.key).2.offer c x s.workers.size := by
    unfold offerNew
    rw [if_neg (Nat.not_lt.mpr small)]
    rfl
  rw [offered]
  refine ⟨?_, lands⟩
  rw [find?_eq, directory, entry, lookUp_cons, if_pos rfl]

/-- A caller that looks for a worker and asks for an identity finds one. -/
theorem seek_lands (filed : s.Filed) (known : s.callers.get? c = some x)
    (creates : x.request.createsWorker = true) (tries : x.tries ≠ 0)
    (serving : s.isShutDown = false) (small : s.policy.queueCapacity ≤ capacityLimit) :
    ∃ w now, (s.seek c x).find? x.key = some w ∧ (s.seek c x).callers.get? c = some now ∧
      now.phase.host? = some w := by
  unfold seek
  rw [if_neg tries, if_neg (by simp [serving])]
  split
  next w named =>
    split
    next =>
      obtain ⟨named, now, here, host⟩ := offerNew_lands known small
      exact ⟨_, now, named, here, host⟩
    next opened =>
      obtain ⟨y, found, -⟩ := filed.named named
      have opened : y.mailbox.closed = false := by
        simpa [creates, isClosed, found] using opened
      obtain ⟨directory, now, here, host⟩ := offer_lands found opened known
      exact ⟨w, now, (congrArg (lookUp · x.key) directory).trans named, here, host⟩
  next =>
    rw [if_pos creates]
    obtain ⟨named, now, here, host⟩ := offerNew_lands known small
    exact ⟨_, now, named, here, host⟩

/-- A caller that looks for a worker and asks for an identity is with one after its step, and that
worker is named for the key. -/
theorem Reachable.lands (h : s.Reachable) (found : s.workers.get? w = some y)
    (known : s.callers.get? c = some x) (seeking : x.phase = .seeking) (kept : x.dropped = false)
    (creates : x.request.createsWorker = true) (tries : x.tries ≠ 0)
    (serving : s.isShutDown = false) (running : s.running = some (.caller c))
    (taken : s.step = some t) :
    ∃ v now, t.find? x.key = some v ∧ t.callers.get? c = some now ∧ now.phase.host? = some v := by
  unfold State.step at taken
  rw [running] at taken
  obtain rfl := Option.some.inj taken
  have result : s.stepCaller c = s.seek c x := by
    unfold stepCaller
    rw [known]
    dsimp only
    rw [seeking, h.ordered.filed.indirect known, kept]
    rfl
  rw [result]
  exact seek_lands h.ordered.filed known creates tries serving (h.small found)

end Landing

/-- What has become of the requests that a worker had when it was removed, once nothing is left to
do: the worker has left or died, the request in its hand is answered, and the others came back. -/
structure Completed (s t : State) (w : WorkerId) (y : Worker) : Prop where
  past : ∀ z, t.workers.get? w = some z → z.activity.isOver = true
  hand : ∀ e, y.activity.hand? = some e →
    (∃ r, t.history w = s.history w ++ [(e.caller, r)] ∧ (s.awaits e.caller w = true →
      (∃ x, t.callers.get? e.caller = some x ∧ x.phase = .ended (.result r)) ∨
        t.GaveUp e.caller)) ∨
    ∃ k alarm z, y.activity = .connecting e k .crash alarm ∧ t.workers.get? w = some z ∧
      z.activity = .died
  lodged : ∀ c x, s.callers.get? c = some x → x.phase.host? = some w → s.Lodged c x →
    Returned s t c x ∨ t.GaveUp c ∨ Lost t w c

/-- A worker that has something in its hand has neither left nor died. -/
theorem live_of_hand {a : Activity} {e : Envelope} (hand : a.hand? = some e) :
    a.isOver = false := by
  cases a <;> first | rfl | exact absurd hand (by simp [Activity.hand?])

/-- A call whose caller is with a worker is not over. -/
theorem live_of_host {p : Phase} (host : p.host? = some w) : p.isEnded = false := by
  cases p <;> first | rfl | exact absurd host (by simp [Phase.host?])

/-- When nothing is left to do, what a worker had when it was removed is dealt with. -/
theorem Resolved.completed (h : t.Resolved) (dismissed : Dismissed s t w y)
    (freed : ∀ c x, s.callers.get? c = some x → x.phase.host? = some w → s.Lodged c x →
      Freed s t w c x) : Completed s t w y where
  past := fun z ↦ h.workers
  hand := by
    intro e hand
    cases dismissed.hand e hand with
    | held found goes =>
      have past := h.workers found
      rcases goes with same | ⟨attempt, alarm, syncing⟩
      · rw [← same] at hand
        exact absurd past (by rw [live_of_hand hand]; simp)
      · exact absurd past (by simp [syncing, Activity.isOver])
    | lost found died crash => exact .inr ⟨_, _, _, crash, found, died⟩
    | answered found free told delivered =>
      refine .inl ⟨_, told, fun awaited ↦ (delivered awaited).imp_left fun reached ↦ ?_⟩
      cases reached with
      | replied known phase =>
        exact absurd (h.calls known) (by simp [phase, Phase.isEnded])
      | result known phase => exact ⟨_, known, phase⟩
  lodged := by
    intro c x known host lodged
    cases freed c x known host lodged with
    | waits found held =>
      have past := h.calls found
      rcases held with host | back
      · exact absurd past (by rw [live_of_host host]; simp)
      · exact absurd past (by simp [back, Phase.isEnded])
    | returned back => exact .inl back
    | gaveUp gone => exact .inr (.inl gone)
    | lost lost => exact .inr (.inr lost)

/-- What comes after the worker of a key has been removed. -/
structure Removed (s : State) (key : String) (w : WorkerId) (y : Worker) : Prop where
  dismissed : ∀ t, Run s t → Dismissed s t w y
  freed : ∀ t, Run s t → ∀ c x, s.callers.get? c = some x → x.phase.host? = some w →
    s.Lodged c x → Freed s t w c x
  completed : ∀ policy connector front t, Session policy connector front t → Run s t →
    ∃ u, Ticks t u ∧ u.tick = none ∧ Completed s u w y
  vacated : s.Vacated key
  lands : ∀ t u, Run s t → t.isShutDown = false → t.step = some u → ∀ c x,
    t.running = some (.caller c) → t.callers.get? c = some x → x.phase = .seeking →
    x.dropped = false → x.key = key → x.request.createsWorker = true → x.tries ≠ 0 →
    ∃ v now, v ≠ w ∧ u.find? key = some v ∧ u.callers.get? c = some now ∧
      now.phase.host? = some v
  kept : ∀ t u, Run s t → t.step = some u → ∀ τ, t.running = some τ → t.Concerns w τ →
    u.directory = t.directory ∧ ∀ v, v ≠ w → u.workers.get? v = t.workers.get? v

/-- Removal of a worker, whatever happens and in whatever order. If no worker is named for the key
then nothing changes but the number of calls that found none. Otherwise the worker that is named is
told to leave. From then on it accepts nothing. The request in its hand is answered, unless its
connector crashes, and the answer reaches the caller unless the caller gives up; every other request
that it had comes back without having been accepted, and its caller looks for another worker, unless
the caller gives up or the worker dies with the envelope. In a session that comes about by itself.
The key is vacant until a worker is created for it, and a caller that asks for an identity is with
another worker as soon as it has looked for one, even if the one that was removed is still busy.
Neither what that worker does then nor what its callers do while they are with it changes the
directory or any other worker. -/
theorem Reachable.removes (h : s.Reachable) (key : String) :
    (s.find? key = none → s.remove key = (.error (.notFound key),
      { s with stats := { s.stats with notFound := s.stats.notFound + 1 } })) ∧
    ∀ w, s.find? key = some w → (s.remove key).1 = .ok () ∧
      ∃ y, (s.remove key).2.workers.get? w = some y ∧ Removed (s.remove key).2 key w y := by
  refine ⟨fun none ↦ ?_, fun w named ↦ ?_⟩
  · unfold State.remove
    rw [none]
    rfl
  have reachable : (s.remove key).2.Reachable := h.run (.single (.remove s key))
  have ok : (s.remove key).1 = .ok () := by
    unfold State.remove
    rw [named]
  have vacant : (s.remove key).2.find? key = none := by
    have entries : (s.remove key).2.directory = s.directory.filter (·.1 ≠ key) :=
      congrArg State.directory (bare_remove named)
    rw [find?_eq, entries, lookUp_filter, if_pos rfl]
  obtain ⟨z, there, -⟩ := h.ordered.filed.named named
  obtain ⟨y, found, -⟩ := (Run.later (.single (.remove s key))).workers w z there
  have start := h.dismissed named found
  have dismissed {t : State} (run : Run (s.remove key).2 t) : Dismissed (s.remove key).2 t w y :=
    (Run.dismissed reachable start found run).of_bare
  have freed {t : State} (run : Run (s.remove key).2 t) {c : CallerId} {x : Caller}
      (known : (s.remove key).2.callers.get? c = some x) (host : x.phase.host? = some w)
      (lodged : (s.remove key).2.Lodged c x) : Freed (s.remove key).2 t w c x :=
    Run.freed reachable start found known host lodged run
  refine ⟨ok, y, found, fun t ↦ dismissed, fun t run c x ↦ freed run, ?_, reachable.vacated vacant,
    ?_, ?_⟩
  · intro policy connector front t session run
    obtain ⟨u, ticks, still, resolved⟩ := session.resolves
    have run := run.trans ticks.run
    exact ⟨u, ticks, still, resolved.completed (dismissed run) fun c x ↦ freed run⟩
  · intro t u run serving taken c x running known seeking kept own creates tries
    have after := run.tail (.step taken)
    obtain ⟨z, there, -⟩ := (Run.later run).workers w y found
    obtain ⟨v, now, named, here, host⟩ :=
      (reachable.run run).lands there known seeking kept creates tries serving running taken
    rw [own] at named
    exact ⟨v, now, fun same ↦ (dismissed after).unnamed key (same ▸ named), named, here, host⟩
  · intro t u run taken τ running concerns
    exact (reachable.run run).kept (dismissed run).unnamed running concerns taken

/-- A worker is removed while it connects, with one envelope in its mailbox and a caller suspended
on it; a call that is made then is accepted by another worker before it has finished. -/
theorem Reachable.removes_busy :
    ∃ s t : State, ∃ y, s.Reachable ∧ s.find? "treasury" = some 0 ∧
      (s.remove "treasury").1 = .ok () ∧ (s.remove "treasury").2.workers.get? 0 = some y ∧
      y.activity.hand?.map (·.caller) = some 0 ∧ y.mailbox.queue.map (·.caller) = [1] ∧
      y.mailbox.waiting = [2] ∧ Removed (s.remove "treasury").2 "treasury" 0 y ∧
      Run (s.remove "treasury").2 t ∧ t.find? "treasury" = some 1 ∧ t.acceptances 1 = [3] ∧
      t.client? 0 = some 0 := by
  have called := ((Session.start : Session { queueCapacity := 1 } trialConnector [] _).act rfl
    (.tail (.tail (.single (.spawn "treasury" (trialGenerate "slow")))
      (.spawn "treasury" trialSign)) (.spawn "treasury" trialSign))).runReady 40
  obtain ⟨ok, y, found, removed⟩ := (Reachable.removes called.reachable "treasury").2 0 rfl
  have calls (o : State) : Run o (runReady 40 (o.spawnCall
      { key := "treasury", request := trialGenerate "main" }).2) :=
    (Run.spawnCall o "treasury" (trialGenerate "main")).trans (Run.runReady 40 _)
  have known := Option.some.inj found
  refine ⟨_, _, y, called.reachable, rfl, ok, found, ?_, ?_, ?_, removed, calls _, rfl, rfl, rfl⟩
  · rw [← known]; rfl
  · rw [← known]; rfl
  · rw [← known]; rfl

end Signatory.Service.State
