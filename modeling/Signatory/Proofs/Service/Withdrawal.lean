import Signatory.Proofs.Service.Closing
import Signatory.Proofs.Service.Execution
import Signatory.Proofs.Service.Idling
import Signatory.Proofs.Service.Numbering
import Signatory.Proofs.Service.Sessions

/-!
# Requests that are withdrawn

A caller that gives up while it is suspended on a mailbox, or while its envelope is in one, takes
its request back: no worker accepts it any more, and no idle deadline is set because of it. A
request for a signature is answered as soon as it is accepted, so a caller whose time was over
before it had an answer was never given a number.
-/

namespace Signatory.Service

/-- Whether a request is answered as soon as a worker accepts it, whatever the worker knows. -/
def Request.isPrompt : Request → Bool
  | .sign _ | .query _ => true
  | .generate _ | .syncNonce => false

namespace State

variable {s t u : State} {τ : Task} {w v : WorkerId} {worker y z : Worker} {c : CallerId}
  {x : Caller}

/-- A request is with a worker that has not taken it up: its caller is suspended on the mailbox, or
its envelope is there. -/
inductive Lodged (s : State) (c : CallerId) (x : Caller) : Prop
  | line {w : WorkerId} (suspended : x.phase = .suspended w)
  | queue {w : WorkerId} {y : Worker} (awaiting : x.phase = .awaiting w)
    (found : s.workers.get? w = some y) (inside : c ∈ y.mailbox.queue.map (·.caller))

section Lodging

/-- A call whose request is lodged is not over. -/
theorem Lodged.live (lodged : s.Lodged c x) : x.phase.isEnded = false := by
  cases lodged with
  | line suspended => rw [suspended]; rfl
  | queue awaiting => rw [awaiting]; rfl

/-- A request that is lodged with a worker has not been accepted by any. -/
theorem Lodged.not_accepted (lodged : s.Lodged c x) (h : s.Sole)
    (known : s.callers.get? c = some x) (w : WorkerId) : .accepted c w ∉ s.events := by
  refine h.not_accepted (Nat.le_antisymm ?_ ?_) w
  · have most := h.budget c
    unfold State.budget at most
    omega
  · rw [phase?_of_found known]
    cases lodged with
    | line suspended => rw [suspended]; exact Nat.le_refl _
    | queue awaiting found inside =>
      rw [awaiting, credit, queued_of_found found]
      exact List.count_pos_iff.mpr inside

/-- What a caller does has no request accepted. -/
theorem Change.acceptances_of_caller (change : Change s (.caller c) t) (w : WorkerId) :
    t.acceptances w = s.acceptances w := by
  cases change <;> rfl

/-- What other tasks do ends no call. -/
theorem Changes.live_of_other (changes : Changes τ s t) (other : τ ≠ .caller c)
    (live : ∀ x, s.callers.get? c = some x → x.phase.isEnded = false) :
    ∀ x, t.callers.get? c = some x → x.phase.isEnded = false := by
  induction changes with
  | refl => exact live
  | tail _ change ih =>
    intro x here
    obtain ⟨old, known, stays⟩ := change.stays other here
    rcases stays with rfl | ⟨w, r, -, rfl⟩
    · exact ih _ known
    · rfl

/-- What one caller does, one thing after the other, has no request accepted. -/
theorem Changes.acceptances_of_caller (changes : Changes (.caller c) s t) (w : WorkerId) :
    t.acceptances w = s.acceptances w := by
  induction changes with
  | refl => rfl
  | tail _ change ih => exact (change.acceptances_of_caller w).trans ih

/-- No request is accepted by what brings a call to its end. -/
theorem Changes.acceptances_of_ending (changes : Changes τ s t)
    (live : ∀ x, s.callers.get? c = some x → x.phase.isEnded = false)
    (here : t.callers.get? c = some x) (past : x.phase.isEnded = true) (w : WorkerId) :
    t.acceptances w = s.acceptances w := by
  by_cases own : τ = .caller c
  · exact (own ▸ changes).acceptances_of_caller w
  · exact absurd past (by simp [changes.live_of_other own live x here])

/-- A request that is lodged when its call comes to end has not been accepted. -/
theorem Lodged.not_accepted_ending (lodged : s.Lodged c x) (h : s.Reachable)
    (known : s.callers.get? c = some x) (next : Next s t) {now : Caller}
    (here : t.callers.get? c = some now) (past : now.phase.isEnded = true) (w : WorkerId) :
    c ∉ t.acceptances w := by
  have before : c ∉ s.acceptances w := fun accepted ↦
    lodged.not_accepted h.sole known w (mem_acceptances.mp accepted)
  rcases next.use with ⟨τ, changes⟩ | use
  · have going (x' : Caller) (known' : s.bare.callers.get? c = some x') :
        x'.phase.isEnded = false := by
      rw [Option.some.inj (known'.symm.trans known)]
      exact lodged.live
    have same : t.acceptances w = s.acceptances w :=
      changes.acceptances_of_ending going here past w
    exact same ▸ before
  · have same : t.acceptances w = s.acceptances w := use.acceptances w
    exact same ▸ before

end Lodging

section Leaving

/-- The request of a caller who has left is not accepted any more. -/
theorem Change.accepted_of_past (change : Change s τ t) (known : s.callers.get? c = some x)
    (past : x.phase.isEnded = true) (new : .accepted c w ∈ t.events) :
    .accepted c w ∈ s.events := by
  rcases change.accepted new with old | ⟨y, e, rest, deadline, accepts, rfl⟩
  · exact old
  · obtain ⟨x', known', awaiting⟩ := awaits_iff.mp accepts.waits
    obtain rfl := Option.some.inj (known.symm.trans known')
    rw [awaiting] at past
    exact absurd past Bool.false_ne_true

/-- The request of a caller who has left is not accepted any more, whatever happens. -/
theorem Run.accepted_of_past (run : Run s t) (known : s.callers.get? c = some x)
    (past : x.phase.isEnded = true) (new : c ∈ t.acceptances w) : c ∈ s.acceptances w := by
  let P (u : State) : Prop :=
    (∃ x, u.callers.get? c = some x ∧ x.phase.isEnded = true) ∧
      (c ∈ u.acceptances w → c ∈ s.acceptances w)
  have kept : P t.bare := by
    refine Run.preserve (P := P) ?_ ?_ ⟨⟨x, known, past⟩, id⟩ run
    · rintro u τ v ⟨⟨x, known, past⟩, old⟩ change
      obtain ⟨x', here, later⟩ := change.later.callers c x known
      refine ⟨⟨x', here, by rw [later.ended past, past]⟩, fun new ↦ old ?_⟩
      exact mem_acceptances.mpr (change.accepted_of_past known past (mem_acceptances.mp new))
    · rintro u v ⟨⟨x, known, past⟩, old⟩ use
      obtain ⟨x', here, later⟩ := use.later.callers c x known
      exact ⟨⟨x', here, by rw [later.ended past, past]⟩,
        fun new ↦ old (use.acceptances w ▸ new)⟩
  exact kept.2 new

/-- What has become of the deadline of a worker: it has been set anew because of requests that were
accepted, and their callers had not left before; or it is as it was. -/
def Prolongs (s t : State) (w : WorkerId) (y z : Worker) : Prop :=
  ∃ more, t.acceptances w = s.acceptances w ++ more ∧
    (∀ c ∈ more, ∀ x, s.callers.get? c = some x → x.phase.isEnded = false) ∧
    (more = [] → z.idle = y.idle ∧ t.lastActive? w = s.lastActive? w)

/-- A deadline that is not as it was has been set because a request is accepted. -/
theorem Change.prolongs (filed : s.Filed) (change : Change s τ t)
    (found : s.workers.get? w = some y) (there : t.workers.get? w = some z) : Prolongs s t w y z := by
  rcases change.acceptances w with same | ⟨_, e, -, -, waits, accepted⟩
  · refine ⟨[], same.trans (List.append_nil _).symm, by simp, fun _ ↦ ?_⟩
    cases change.rearms filed there with
    | kept found' idle active =>
      exact Option.some.inj (found.symm.trans found') ▸ ⟨idle, active⟩
    | accepted found' due active acceptances => exact absurd (same.symm.trans acceptances) (by simp)
    | created missing => exact absurd (found.symm.trans missing) (by simp)
  · refine ⟨[e.caller], accepted, fun c inside x known ↦ ?_, by simp⟩
    obtain rfl := List.mem_singleton.mp inside
    obtain ⟨x', known', awaiting⟩ := awaits_iff.mp waits
    rw [Option.some.inj (known.symm.trans known'), awaiting]
    rfl

/-- A deadline is set anew only because a request is accepted, whatever happens. -/
theorem Next.prolongs (h : s.Reachable) (next : Next s t)
    (found : s.workers.get? w = some y) (there : t.workers.get? w = some z) : Prolongs s t w y z := by
  let P (u : State) : Prop :=
    u.Filed ∧ s.bare.Later u ∧ ∃ z, u.workers.get? w = some z ∧ Prolongs s u w y z
  have filed := h.bare.ordered.filed
  have kept : P t.bare := by
    rcases next.use with ⟨τ, changes⟩ | use
    · refine Changes.preserve (P := P) ?_ ?_ changes
      · rintro u τ v ⟨filed, later, z, found, more, accepted, live, same⟩ change
        obtain ⟨z', there, -⟩ := change.later.workers w z found
        obtain ⟨others, further, live', still⟩ := change.prolongs filed found there
        refine ⟨change.filed filed, later.trans change.later, z', there, more ++ others, ?_, ?_, ?_⟩
        · rw [further, accepted, List.append_assoc]
        · intro c inside x known
          refine (List.mem_append.mp inside).elim (live c · x known) fun inside ↦ ?_
          obtain ⟨x', known', since⟩ := later.callers c x known
          have going := live' c inside x' known'
          cases past : x.phase.isEnded with
          | false => rfl
          | true =>
            rw [since.ended past, past] at going
            exact absurd going.symm Bool.false_ne_true
        · intro none
          obtain ⟨none, none'⟩ := List.append_eq_nil_iff.mp none
          obtain ⟨idle, active⟩ := same none
          obtain ⟨idle', active'⟩ := still none'
          exact ⟨idle'.trans idle, active'.trans active⟩
      · exact ⟨filed, .refl _, y, found, [], (List.append_nil _).symm, by simp, fun _ ↦ ⟨rfl, rfl⟩⟩
    · obtain ⟨active, y', found', same⟩ := use.rearmed there
      obtain rfl := Option.some.inj (found.symm.trans found')
      exact ⟨use.filed filed, use.later, z, there, [],
        (use.acceptances w).trans (List.append_nil _).symm, by simp, fun _ ↦ ⟨same, active⟩⟩
  obtain ⟨-, -, z', there', prolongs⟩ := kept
  exact Option.some.inj (there.symm.trans there') ▸ prolongs

end Leaving

section Signing

/-- No worker answers that the time is over. -/
theorem Answers.in_time {e : Envelope} {r : Result} {identity : Option Identity}
    (answers : Answers s worker e (r, identity)) : r ≠ .error .timeout := by
  intro late
  cases answers with
  | misrouted => exact absurd late (by simp)
  | served serves => exact absurd (serves.refuses late) Bool.false_ne_true
  | finished finishes => exact absurd (finishes.refuses late) Bool.false_ne_true

/-- What a worker has in its hand cannot be answered as soon as it is accepted. -/
theorem Asked.slow {connector : Ledger.Connector} {workers : Table Worker} {e : Envelope}
    (h : Asked connector workers) (found : workers.get? w = some y)
    (hand : y.activity.hand? = some e) : e.request.isPrompt = false := by
  have apt := h w y found
  cases apt' : y.activity with
  | connecting e' k outcome alarm =>
    rw [apt'] at hand
    rw [← Option.some.inj hand, (h.connects found apt').1]
    rfl
  | syncing e' attempt alarm =>
    rw [apt'] at hand
    rw [← Option.some.inj hand, h.syncs found apt']
    rfl
  | _ => rw [apt'] at hand; exact absurd hand (by simp [Activity.hand?])

/-- A caller that waits for the answer to a request that can be answered at once has it lodged. -/
theorem lodged_of_prompt (owned : Owned s.workers s.callers) (asked : Asked s.connector s.workers)
    (known : s.callers.get? c = some x) (prompt : x.request.isPrompt = true)
    (awaiting : x.phase = .awaiting w) : s.Lodged c x := by
  obtain ⟨y, found⟩ := owned.present known (congrArg Phase.host? awaiting)
  obtain ⟨e, inside, rfl⟩ := List.mem_map.mp (held_of_awaiting owned known awaiting found)
  refine .queue awaiting found ((List.mem_append.mp inside).elim (fun hand ↦ ?_)
    fun queued ↦ List.mem_map_of_mem queued)
  have slow := asked.slow found (Option.mem_toList.mp hand)
  obtain ⟨x', known', -, request⟩ := owned.carried found inside
  obtain rfl := Option.some.inj (known.symm.trans known')
  rw [← request, prompt] at slow
  exact absurd slow.symm Bool.false_ne_true

/-- A caller whose time was over before its request was answered, and whose request would have been
answered as soon as it was accepted, has not had it accepted. -/
structure Prompt (s : State) : Prop where
  sole : s.Sole
  asked : Asked s.connector s.workers
  heard : s.Heard
  inTime : ∀ {c w}, .answered c w (.error .timeout) ∉ s.events
  late : ∀ {c x w}, s.callers.get? c = some x → x.request.isPrompt = true →
    x.phase = .ended (.result (.error .timeout)) → .accepted c w ∉ s.events

/-- Every change leaves requests unaccepted whose callers' time was over. -/
theorem Change.prompt (h : s.Prompt) (change : Change s τ t) : t.Prompt where
  sole := change.sole h.sole
  asked := change.asked h.asked
  heard := change.heard h.heard
  inTime := by
    intro c w new
    rcases change.answered new with old | ⟨y, e, identity, -, -, -, answers⟩
    · exact h.inTime old
    · exact answers.in_time rfl
  late := by
    intro c x w here prompt past new
    obtain ⟨old, known, before⟩ := change.ends here past
    obtain ⟨x', here', later⟩ := change.later.callers c old known
    obtain rfl := Option.some.inj (here.symm.trans here')
    rw [later.request] at prompt
    rcases before with gone | ends
    · refine h.late known prompt gone (change.accepted_of_past known ?_ new)
      rw [gone]
      rfl
    · have lodged : s.Lodged c old := by
        generalize outcome : Ending.result (.error .timeout) = ending at ends
        cases ends with
        | concludes cause =>
          subst outcome
          cases cause with
          | result replied => exact absurd (h.heard known replied) h.inTime
        | givesUp live cause =>
          subst outcome
          cases cause with
          | timeout waiting =>
            rcases waiting with suspended | awaiting
            · exact .line suspended
            · exact lodged_of_prompt h.sole.owned h.asked known prompt awaiting
        | _ => exact absurd outcome (by simp)
      have same := Changes.acceptances_of_ending (.single change)
        (fun x' known' ↦ Option.some.inj (known.symm.trans known') ▸ lodged.live) here
        (by rw [past]; rfl) w
      refine lodged.not_accepted h.sole known w (mem_acceptances.mp ?_)
      exact same ▸ mem_acceptances.mpr new

/-- Every use leaves requests unaccepted whose callers' time was over. -/
theorem Use.prompt (h : s.Prompt) (use : Use s t) : t.Prompt where
  sole := use.sole h.sole
  asked := use.asked h.asked
  heard := use.heard h.heard
  inTime := by
    intro c w
    rw [← mem_history, (use.silent w).1, mem_history]
    exact h.inTime
  late := by
    intro c x w here prompt past
    obtain ⟨old, known, gone⟩ := use.ends here past
    obtain ⟨x', here', later⟩ := use.later.callers c old known
    obtain rfl := Option.some.inj (here.symm.trans here')
    rw [later.request] at prompt
    rw [← mem_acceptances, use.acceptances w, mem_acceptances]
    exact h.late known prompt gone

/-- Nobody's time is over at the start. -/
theorem prompt_start (policy : Policy) (connector : Ledger.Connector) :
    (start policy connector).Prompt where
  sole := sole_start policy connector
  asked := (numbered_start policy connector).asked
  heard := heard_start policy connector
  inTime := List.not_mem_nil
  late := fun found ↦ by simp [start] at found

/-- A request that could have been answered as soon as it was accepted, and whose caller's time was
over, has not been accepted, in every state that can come about. -/
theorem Reachable.late (h : s.Reachable) (known : s.callers.get? c = some x)
    (prompt : x.request.isPrompt = true) (past : x.phase = .ended (.result (.error .timeout)))
    (w : WorkerId) : c ∉ s.acceptances w := by
  have kept := Reachable.invariant (P := Prompt) prompt_start (fun h change ↦ change.prompt h)
    (fun h use ↦ use.prompt h) h
  exact fun accepted ↦ kept.late known prompt past (mem_acceptances.mp accepted)

end Signing

/-- A call that has been withdrawn: from now on no worker accepts its request, and idle deadlines
are only set because others are accepted. -/
structure Withdrawn (s : State) (c : CallerId) : Prop where
  unaccepted : ∀ t, Run s t → ∀ w, c ∉ t.acceptances w
  rearmed : ∀ t u, Run s t → Next t u → ∀ w y z, t.workers.get? w = some y →
    u.workers.get? w = some z →
    ∃ others, u.acceptances w = t.acceptances w ++ others ∧ c ∉ others ∧
      (others = [] → z.idle = y.idle)

/-- A call that took no number: no worker has accepted its request or answered it, the number of
each worker is what the answers to others come to, and signatures with no generation and no adopted
number between them take one number after the other, none for this call. -/
structure Numberless (s : State) (c : CallerId) : Prop where
  unaccepted : ∀ w, c ∉ s.acceptances w
  unanswered : ∀ w r, (c, r) ∉ s.history w
  current : ∀ w, number? (s.identity? w) = (s.history w).foldl (numberAfter s.initial) none
  contiguous : ∀ w before piece after, s.history w = before ++ piece ++ after →
    (∀ r ∈ piece, moves r.2 = true → signs r.2 = true) →
    ∃ k, (signatures piece).map (·.2) = List.range' k (signatures piece).length ∧
      (signatures piece ≠ [] → before.foldl (numberAfter s.initial) none = some k)

/-- Whoever has not been accepted has taken no number. -/
theorem Reachable.numberless (h : s.Reachable) (unaccepted : ∀ w, c ∉ s.acceptances w) :
    s.Numberless c where
  unaccepted := unaccepted
  unanswered := by
    intro w r answered
    obtain ⟨client, accepted, -⟩ := h.settles w
    refine unaccepted w (accepted ▸ List.mem_append_left _ ?_)
    exact List.mem_map_of_mem (f := Prod.fst) answered
  current := h.numbered.current
  contiguous := by
    intro w before piece after history only
    have follows := h.numbered.follows w
    rw [history, List.append_assoc] at follows
    exact (follows_append.mp (follows_append.mp follows).2).1.contiguous only

/-- Requests that are withdrawn, whatever happens and in whatever order. If a call ends while its
caller is suspended on a mailbox or its envelope is in one, then no worker ever accepts the request,
and no idle deadline is set because of it. A caller that is told to try again because its time was
over before it had a signature was not given a number, neither before nor after; the numbers that
others are given follow one another as if it had not called. -/
theorem Reachable.requests_withdrawn (h : s.Reachable) :
    (∀ c x t z, s.callers.get? c = some x → s.Lodged c x → Next s t →
      t.callers.get? c = some z → z.phase.isEnded = true → t.Withdrawn c) ∧
    Failure.timeout.isRetryable = true ∧
    ∀ c x d, s.callers.get? c = some x → x.request = .sign d →
      x.phase = .ended (.result (.error .timeout)) → ∀ t, Run s t → t.Numberless c := by
  refine ⟨fun c x t z known lodged next here past ↦ ?_, rfl, ?_⟩
  · have reachable := h.run (.single next)
    have unaccepted (u : State) (run : Run t u) (w : WorkerId) : c ∉ u.acceptances w :=
      fun accepted ↦ lodged.not_accepted_ending h known next here past w
        (run.accepted_of_past here past accepted)
    refine ⟨unaccepted, fun u v run further w y z found there ↦ ?_⟩
    obtain ⟨others, accepted, -, still⟩ :=
      further.prolongs (reachable.run run) found there
    refine ⟨others, accepted, fun inside ↦ ?_, fun none ↦ (still none).1⟩
    exact unaccepted v (run.tail further) w (accepted ▸ List.mem_append_right _ inside)
  · intro c x d known request past t run
    refine (h.run run).numberless fun w accepted ↦ ?_
    have ended : x.phase.isEnded = true := by rw [past]; rfl
    exact h.late known (by rw [request]; rfl) past w (run.accepted_of_past known ended accepted)

/-- The time of a caller is over while its envelope is behind a request that takes longer. -/
theorem Reachable.requests_withdrawn_late :
    ∃ s t x z, s.Reachable ∧ s.callers.get? 1 = some x ∧ s.Lodged 1 x ∧ Next s t ∧
      t.callers.get? 1 = some z ∧ x.request = trialSign ∧
      z.phase = .ended (.result (.error .timeout)) ∧ t.Withdrawn 1 ∧ t.Numberless 1 := by
  have called := ((Session.start : Session { requestTimeout := some 50 } trialConnector [] _).act
    rfl (.tail (.single (.spawn "treasury" (trialGenerate "slow")))
      (.spawn "treasury" trialSign))).runReady 40
  have late := (called.jump_listed rfl (show _ = some 50 from rfl) rfl (by decide)).runReady 3
  have reachable := late.reachable
  have ends {s t : State} (_ : s.Reachable) (taken : s.step = some t) : Next s t := .step taken
  have next := ends reachable rfl
  have waits {s : State} {x : Caller} {y : Worker} (_ : s.Reachable)
      (_ : s.callers.get? 1 = some x) (found : s.workers.get? 0 = some y)
      (awaiting : x.phase = .awaiting 0) (inside : 1 ∈ y.mailbox.queue.map (·.caller)) :
      s.Lodged 1 x := .queue awaiting found inside
  have lodged := waits reachable rfl rfl rfl (List.mem_singleton.mpr rfl)
  refine ⟨_, _, _, _, reachable, rfl, lodged, next, rfl, rfl, rfl, ?_, ?_⟩
  · exact (Reachable.requests_withdrawn reachable).1 1 _ _ _ rfl lodged next rfl rfl
  · exact (Reachable.requests_withdrawn (reachable.run (.single next))).2.2 1 _ _ rfl rfl rfl _ .refl

end State

end Signatory.Service
