import Signatory.Proofs.Service.Accounting
import Signatory.Proofs.Service.Closing
import Signatory.Proofs.Service.Creation
import Signatory.Proofs.Service.Mail
import Signatory.Proofs.Service.Numbering
import Signatory.Proofs.Service.Watch

/-!
# Who comes after

A worker that has neither left nor been told to is the one that is named for its key. A worker that
is not named any more is never named again: whoever comes after it is created for a caller that asks
for an identity, and has that caller's envelope first in its mailbox. So if that request succeeds
the new worker begins with the number that the caller asks for.
-/

namespace Signatory.Service.State

variable {s t u : State} {τ : Task} {w v : WorkerId} {y z : Worker} {c : CallerId} {x : Caller}
  {key : String}

/-- A worker that has neither left nor been told to is the one that is named for its key. -/
theorem Reachable.named_of_serves (h : s.Reachable) (found : s.workers.get? w = some y)
    (serves : y.ServesKey key) : s.find? key = some w := by
  cases shut : s.isShutDown with
  | true =>
    have told := (h.closing shut).told found
    rw [serves.kept] at told
    exact absurd told Bool.false_ne_true
  | false =>
    obtain ⟨counted, missed, accounts⟩ := h.accounts shut
    have named := accounts.named_of_kept h.ordered.filed found serves.kept serves.live
    rwa [serves.key] at named

/-- Who is named was named before, or has been created since. -/
theorem Run.named (run : Run s t) (named : t.find? key = some w) :
    s.find? key = some w ∨ s.workers.size ≤ w := by
  let P (u : State) : Prop :=
    s.bare.Later u ∧
      ∀ {key w}, u.find? key = some w → s.find? key = some w ∨ s.workers.size ≤ w
  have kept : P t.bare := by
    refine Run.preserve (P := P) ?_ ?_ ⟨.refl _, .inl⟩ run
    · rintro u τ v ⟨later, old⟩ change
      refine ⟨later.trans change.later, fun named ↦ ?_⟩
      rcases change.named named with before | ⟨rfl, -⟩
      · exact old before
      · exact .inr later.size_le
    · rintro u v ⟨later, old⟩ use
      exact ⟨later.trans use.later, fun named ↦ old (use.named named)⟩
  exact kept.2 named

section Founding

/-- The caller for whose sake a worker was created: it asked for an identity, and its envelope was
the first to be put into the mailbox. -/
structure Founder (s : State) (w : WorkerId) (y : Worker) (c : CallerId) (k : Credentials) :
    Prop where
  known : ∃ x, s.callers.get? c = some x ∧ x.key = y.key ∧ x.request = .generate k
  first : (s.entries w).head? = some c

/-- What was put into a mailbox stays recorded. -/
theorem Later.entries (later : s.Later t) (w : WorkerId) : s.entries w <+: t.entries w :=
  List.reverse_prefix.mpr ((later.journal.map Entry.event).filterMap _)

/-- A worker was created for the sake of the same caller ever after. -/
theorem Founder.later {k : Credentials} (h : s.Founder w y c k) (later : s.Later t)
    (found : s.workers.get? w = some y) (there : t.workers.get? w = some z) :
    t.Founder w z c k where
  known := by
    obtain ⟨x, known, key, request⟩ := h.known
    obtain ⟨x', known', since⟩ := later.callers c x known
    obtain ⟨z', there', goes⟩ := later.workers w y found
    obtain rfl := Option.some.inj (there.symm.trans there')
    exact ⟨x', known', since.key.trans (key.trans goes.key.symm), since.request.trans request⟩
  first := by
    obtain ⟨more, entries⟩ := later.entries w
    rw [← entries, List.head?_append, h.first]
    rfl

/-- Only an identity is worth creating a worker for. -/
theorem generates_of_creates {q : Request} (creates : q.createsWorker = true) :
    ∃ k, q = .generate k := by
  cases q with
  | generate k => exact ⟨k, rfl⟩
  | query q => cases q <;> exact absurd creates Bool.false_ne_true
  | _ => exact absurd creates Bool.false_ne_true

/-- A worker has just been created, and has the envelope of the caller for whose sake it was. -/
structure Begins (s t : State) (w : WorkerId) (z : Worker) (c : CallerId) (k : Credentials) :
    Prop extends Founder t w z c k where
  running : s.running = some (.caller c)
  number : w = s.workers.size
  fresh : z =
    { s.newWorker z.key with
      mailbox := (s.newWorker z.key).mailbox.push ⟨z.key, .generate k, c⟩ }

/-- A worker that was not there was created by a caller, and its mailbox is not too large. -/
theorem Next.creates (next : Next s t) (new : s.workers.get? w = none)
    (there : t.workers.get? w = some z) :
    ∃ c x, s.running = some (.caller c) ∧ s.callers.get? c = some x ∧
      x.request.createsWorker = true ∧ s.policy.queueCapacity ≤ capacityLimit ∧
      t = (s.spawn x.key).2.offer c x s.workers.size := by
  have kept (same : t.workers.get? w = s.workers.get? w) : False := by
    rw [same, new] at there
    exact absurd there (by simp)
  rcases next.step_or_use with taken | use
  · cases running : s.running with
    | none =>
      obtain ⟨-, workers, -⟩ := step_of_rest running taken
      exact (kept (by rw [workers])).elim
    | some τ =>
      unfold State.step at taken
      rw [running] at taken
      cases τ with
      | worker v =>
        obtain rfl := Option.some.inj taken
        by_cases own : w = v
        · subst own
          unfold stepWorker at there
          rw [new] at there
          exact absurd (new.symm.trans there) (by simp)
        · exact (kept ((stepWorker_stirs running).others own)).elim
      | caller c =>
        have less : s.workers.size ≤ w := Nat.le_of_not_lt fun less ↦ by
          rw [← Table.get?_isSome, new] at less
          exact absurd less (by simp)
        have more := Nat.lt_of_le_of_lt less (Table.lt_size there)
        obtain ⟨x, known, -, -, creates, small, made⟩ :=
          stepCaller_of_more (Option.some.inj taken) (Nat.ne_of_gt more)
        exact ⟨c, x, rfl, known, creates, small, made⟩
  · obtain ⟨y, found, -⟩ := use.of_worker there
    exact absurd (new.symm.trans found) (by simp)

/-- A worker that was not there has just been created, and has the envelope of the caller. -/
theorem Next.begins (h : s.Reachable) (next : Next s t) (new : s.workers.get? w = none)
    (there : t.workers.get? w = some z) : ∃ c k, Begins s t w z c k := by
  obtain ⟨c, x, running, known, creates, -, made⟩ := next.creates new there
  obtain ⟨k, request⟩ := generates_of_creates creates
  obtain ⟨workers, -, journal⟩ := offer_spawn s c x
  rw [← made] at workers journal
  have here : t.bare.workers.get? w = some z := there
  rw [workers, Table.get?_update, Table.get?_push] at here
  by_cases own : w = s.workers.size
  · subst own
    rw [if_pos rfl, if_pos rfl] at here
    obtain rfl := Option.some.inj here
    have events : t.events = .queued c s.workers.size :: .offered c s.workers.size ::
        .spawned s.workers.size x.key :: s.events := congrArg (List.map Entry.event) journal
    obtain ⟨rest, lined⟩ := h.mailed.lined s.workers.size
    refine ⟨c, k, ⟨?_, ?_⟩, running, rfl, by rw [← request]; rfl⟩
    · obtain ⟨x', known', since⟩ := (Run.later (.single next)).callers c x known
      exact ⟨x', known', since.key, since.request.trans request⟩
    · rw [State.entries, events, entries_queued, if_pos rfl]
      change (s.entries s.workers.size ++ [c]).head? = some c
      rw [lined.unused new]
      rfl
  · rw [if_neg (Ne.symm own), if_neg own, new] at here
    exact absurd here (by simp)

/-- Mailboxes are not too large where there is a worker. -/
theorem Reachable.small (h : s.Reachable) (found : s.workers.get? w = some y) :
    s.policy.queueCapacity ≤ capacityLimit := by
  obtain ⟨policy, connector, run⟩ := h
  induction run generalizing y with
  | refl => exact absurd ((Table.get?_empty w).symm.trans found) (by simp)
  | tail run next ih =>
    rename_i s' t
    rw [(Run.later (.single next)).policy]
    cases before : s'.workers.get? w with
    | none =>
      obtain ⟨c, x, -, -, -, small, -⟩ := next.creates before found
      exact small
    | some x => exact ih before

/-- Every worker was created for the sake of a caller. -/
theorem Reachable.founder (h : s.Reachable) (found : s.workers.get? w = some y) :
    ∃ c k, s.Founder w y c k := by
  obtain ⟨policy, connector, run⟩ := h
  induction run generalizing y with
  | refl => exact absurd ((Table.get?_empty w).symm.trans found) (by simp)
  | tail run next ih =>
    rename_i s' t
    cases before : s'.workers.get? w with
    | none =>
      obtain ⟨c, k, begins⟩ := next.begins ⟨policy, connector, run⟩ before found
      exact ⟨c, k, begins.toFounder⟩
    | some x =>
      obtain ⟨c, k, founder⟩ := ih before
      exact ⟨c, k, founder.later (Run.later (.single next)) before found⟩

end Founding

section Beginning

/-- Whoever is skipped is never accepted later. -/
theorem not_accepted_of_skipped {later earlier : List Event}
    (heeds : Heeds (later ++ .skipped c w :: earlier)) (v : WorkerId) : .accepted c v ∉ later := by
  induction later with
  | nil => exact List.not_mem_nil
  | cons event later ih =>
    intro inside
    rcases List.mem_cons.mp inside with rfl | inside
    · have before : Heeds (later ++ .skipped c w :: earlier) := heeds.2
      obtain ⟨e, left⟩ := before.of_skipped
      exact heeds.1 e (List.mem_append_right _ (List.mem_cons_of_mem _ left))
    · refine ih ?_ inside
      cases event <;> first | exact heeds | exact heeds.2

/-- A worker that takes an envelope without accepting it skips it. -/
theorem skipped_of_taking {event : Event} (taking : event.taking? w = some (c, false)) :
    event = .skipped c w := by
  cases event with
  | accepted d v =>
    simp only [Event.taking?] at taking
    split at taking
    next => exact absurd (Prod.mk.inj (Option.some.inj taking)).2 (by simp)
    next => exact absurd taking (by simp)
  | skipped d v =>
    simp only [Event.taking?] at taking
    split at taking
    next same =>
      obtain ⟨rfl, -⟩ := Prod.mk.inj (Option.some.inj taking)
      rw [same]
    next => exact absurd taking (by simp)
  | _ => exact absurd taking (by simp [Event.taking?])

/-- If the caller for whose sake a worker was created has been accepted, then it was the first. -/
theorem Founder.accepted_first {k : Credentials} (h : s.Mailed) (founder : s.Founder w y c k)
    (accepted : c ∈ s.acceptances w) : ∃ more, s.acceptances w = c :: more := by
  obtain ⟨rest, lined⟩ := h.lined w
  have first := founder.first
  rw [lined.entries] at first
  cases taken : s.takings w with
  | nil =>
    rw [s.acceptances_eq, taken] at accepted
    exact absurd accepted (by simp)
  | cons taking more =>
    obtain ⟨d, wanted⟩ := taking
    rw [taken] at first
    obtain rfl : d = c := Option.some.inj first
    cases wanted with
    | true =>
      refine ⟨(more.filter (·.2)).map (·.1), ?_⟩
      rw [s.acceptances_eq, taken]
      rfl
    | false =>
      -- The caller had left when its envelope was taken, so it is not accepted after that.
      have split : s.events.filterMap (Event.taking? w) = more.reverse ++ [(d, false)] := by
        rw [← List.reverse_cons]
        exact List.reverse_eq_iff.mp taken
      obtain ⟨later, rest, events, -, one⟩ := List.filterMap_eq_append_iff.mp split
      obtain ⟨between, event, earlier, rfl, none, skip, silent⟩ := List.filterMap_eq_cons_iff.mp one
      obtain rfl := skipped_of_taking skip
      have apart := h.heeds
      rw [events, ← List.append_assoc] at apart
      have accepted := mem_acceptances.mp accepted
      rw [events, ← List.append_assoc] at accepted
      rcases List.mem_append.mp accepted with after | before
      · exact absurd after (not_accepted_of_skipped apart w)
      · rcases List.mem_cons.mp before with same | before
        · exact absurd same (by simp)
        · have taking : Event.taking? w (.accepted d w) = some (d, true) := if_pos rfl
          have inside := List.mem_filterMap.mpr ⟨_, before, taking⟩
          rw [silent] at inside
          exact absurd inside List.not_mem_nil

/-- If the caller for whose sake a worker was created has an answer, then it was answered first. -/
theorem Founder.answered_first {k : Credentials} {r : Result} (h : s.Reachable)
    (founder : s.Founder w y c k) (answered : (c, r) ∈ s.history w) :
    ∃ r' more, s.history w = (c, r') :: more := by
  obtain ⟨client, accepted, -⟩ := h.settles w
  have inside : c ∈ s.acceptances w :=
    accepted ▸ List.mem_append_left _ (List.mem_map_of_mem (f := Prod.fst) answered)
  obtain ⟨others, first⟩ := founder.accepted_first h.mailed inside
  rw [first] at accepted
  cases history : s.history w with
  | nil => exact absurd (history ▸ answered) List.not_mem_nil
  | cons a more =>
    rw [history] at accepted
    obtain rfl : c = a.1 := (List.cons.inj accepted).1
    exact ⟨a.2, more, rfl⟩

/-- A worker accepts the request of a caller at most as often as it is executed. -/
theorem count_acceptances_le (s : State) (w : WorkerId) (c : CallerId) :
    (s.acceptances w).count c ≤ executions s.journal c := by
  unfold State.acceptances events executions
  rw [List.count_reverse]
  induction s.journal with
  | nil => exact Nat.le_refl _
  | cons entry journal ih =>
    rw [List.map_cons, List.countP_cons]
    cases event : entry.event with
    | accepted d v =>
      rw [List.filterMap_cons]
      simp only [Event.acceptance?, Event.accepts]
      split
      next => exact Nat.le_trans ih (Nat.le_add_right _ _)
      next here =>
        split at here
        next =>
          obtain rfl := Option.some.inj here
          rw [List.count_cons]
          exact Nat.add_le_add ih (by simp)
        next => exact absurd here (by simp)
    | _ => exact Nat.le_trans ih (Nat.le_add_right _ _)

/-- No caller has two answers from a worker. -/
theorem Reachable.answered_once (h : s.Reachable) (w : WorkerId) :
    ((s.history w).map (·.1)).Nodup := by
  obtain ⟨client, accepted, -⟩ := h.settles w
  refine List.nodup_iff_count.mpr fun c ↦ ?_
  have most := Nat.le_trans (count_acceptances_le s w c)
    (Nat.le_trans (Nat.le_add_right _ _) (h.sole.budget c))
  rw [accepted, List.count_append] at most
  exact Nat.le_trans (Nat.le_add_right _ _) most

/-- A worker begins with the number for which the caller asked for whose sake it was created: if
that caller was given an identity then this is the first answer of the worker, and its number is
what the answers after that come to. -/
theorem Founder.begins_with {k : Credentials} {a : Address} (h : s.Reachable)
    (founder : s.Founder w y c k) (answered : (c, .ok (.generated a)) ∈ s.history w) :
    ∃ more, s.history w = (c, .ok (.generated a)) :: more ∧
      number? (s.identity? w) =
        more.foldl (numberAfter s.initial) (some k.sequenceNumber.toNat) := by
  obtain ⟨r, more, first⟩ := founder.answered_first h answered
  have once := h.answered_once w
  rw [first, List.map_cons, List.nodup_cons] at once
  rw [first] at answered
  rcases List.mem_cons.mp answered with same | again
  · rw [← (Prod.mk.inj same).2] at first
    refine ⟨more, first, ?_⟩
    obtain ⟨x, known, -, request⟩ := founder.known
    have begins : s.initial c = some k.sequenceNumber.toNat := by
      unfold State.initial
      rw [known]
      dsimp only [Option.bind_some]
      rw [request]
    rw [h.numbered.current w, first, List.foldl_cons, numberAfter, begins]
  · exact absurd (List.mem_map_of_mem (f := Prod.fst) again) once.1

end Beginning

end Signatory.Service.State
