import Signatory.Proofs.Service.Allotment
import Signatory.Proofs.Service.Answering
import Signatory.Proofs.Service.Serial

/-!
# Requests that fail leave no trace

Whatever a worker answers with an error leaves its identity as it was, in one step and over a whole
run, and the worker goes on. A clerk uses up some of the ledgers' answers for each request, and none
of those for the others; so if a request that failed is left out, together with the answers that
were used for it, everything else is answered as before, and the identity is the same in the end.
-/

namespace Signatory.Service

namespace Clerk

variable {k : Clerk} {identity next : Option Identity} {answers rest : List Answer} {q : Request}
  {qs : List Request} {all : List Result × Option Identity} {fault : Failure}

/-- A request that fails leaves the identity as it was. -/
theorem identity_of_error (h : k.serve identity answers q = some ((.error fault, next), rest)) :
    next = identity := by
  have deed := serve_deed h
  generalize same : ((.error fault, next) : Result × Option Identity) = done at deed
  cases deed with
  | generated => exact absurd (congrArg Prod.fst same) (by simp)
  | refused => exact (Prod.mk.inj same).2
  | signed => exact absurd (congrArg Prod.fst same) (by simp)
  | unsigned => exact (Prod.mk.inj same).2
  | synced => exact absurd (congrArg Prod.fst same) (by simp)
  | unsynced => exact (Prod.mk.inj same).2
  | told => exact absurd (congrArg Prod.fst same) (by simp)
  | unknown => exact (Prod.mk.inj same).2

/-- Where nobody asks for a synchronisation, no answer of a ledger is used. -/
theorem work_unasked (others : ∀ q ∈ qs, q ≠ .syncNonce)
    (h : k.work identity answers qs = some (all, rest)) : rest = answers := by
  induction qs generalizing identity answers all with
  | nil => exact (Prod.mk.inj (Option.some.inj h)).2.symm
  | cons q qs ih =>
    obtain ⟨done, left, more, served, worked, -⟩ := work_cons.mp h
    rw [ih (fun q inside ↦ others q (List.mem_cons_of_mem _ inside)) worked]
    rcases k.serve_cases identity q with ⟨outcome, same⟩ | ⟨-, -, sync⟩
    · rw [same] at served
      obtain ⟨done', -, left⟩ := Option.map_eq_some_iff.mp served
      exact (Prod.mk.inj left).2.symm
    · exact absurd sync (others q List.mem_cons_self)

/-- A request that a clerk has failed, with the requests before it and after it, the answers of
ledgers that were used for each, and what the clerk has answered. The identity is the same before
and after the request that failed. -/
structure Setback (k : Clerk) where
  (before : List Request) (request : Request) (after : List Request)
  (told mine later : List Answer)
  (first : List Result) (fault : Failure) (others : List Result)
  (identity last : Option Identity)
  begun : k.work none told before = some ((first, identity), [])
  failed : k.serve identity mine request = some ((.error fault, identity), [])
  ended : k.work identity later after = some ((others, last), [])

/-- Without the request that failed, and without the answers that were used for it, the clerk
answers the same to the other requests and comes to the same identity. -/
theorem Setback.without (b : k.Setback) :
    k.work none (b.told ++ b.later) (b.before ++ b.after) =
      some ((b.first ++ b.others, b.last), []) :=
  work_parts.mpr ⟨_, _, _, _, work_append b.begun b.later, b.ended, rfl⟩

/-- Where a clerk has answered with an error, there is a request that it has failed. -/
theorem setback_of_work {first others : List Result} {last : Option Identity}
    (h : k.work none answers qs = some ((first ++ .error fault :: others, last), rest)) :
    ∃ b : k.Setback, b.first = first ∧ b.fault = fault ∧ b.others = others ∧ b.last = last ∧
      qs = b.before ++ b.request :: b.after ∧
      answers = b.told ++ (b.mine ++ (b.later ++ rest)) := by
  obtain ⟨before, q, after, rfl, aligned⟩ :
      ∃ before q after, qs = before ++ q :: after ∧ before.length = first.length := by
    have count : qs.length = first.length + (others.length + 1) := by
      rw [← length_of_work h, List.length_append, List.length_cons]
    have front : (qs.take first.length).length = first.length := by
      rw [List.length_take_of_le (by omega)]
    cases back : qs.drop first.length with
    | nil =>
      rw [List.drop_eq_nil_iff] at back
      omega
    | cons q after =>
      exact ⟨_, q, after, back ▸ (List.take_append_drop _ qs).symm, front⟩
  obtain ⟨first', i, left, others', begun, tail, results⟩ := work_parts.mp h
  have length : first'.length = first.length := (length_of_work begun).trans aligned
  obtain ⟨rfl, rfl⟩ := List.append_inj results length.symm
  obtain ⟨done, left', others', served, ended, same⟩ := work_cons.mp tail
  obtain ⟨r, next⟩ := done
  obtain ⟨rfl, rfl⟩ := List.cons.inj same
  obtain rfl := identity_of_error served
  obtain ⟨told, rfl, front⟩ := work_uses begun
  obtain ⟨mine, rfl, failed⟩ := serve_uses served
  obtain ⟨later, rfl, back⟩ := work_uses ended
  exact ⟨⟨before, q, after, told, mine, later, first, fault, others, _, last, front, failed, back⟩,
    rfl, rfl, rfl, rfl, rfl, rfl⟩

end Clerk

namespace State

variable {policy : Policy} {connector : Ledger.Connector} {record : List (WorkerId × Answer)}
  {s t : State} {w : WorkerId} {y : Worker} {c : CallerId} {fault : Failure}
  {more first others : List (CallerId × Result)} {rest : List Answer}

/-- While a worker answers nothing but errors, its identity stays as it was. -/
theorem Run.kept_of_errors (run : Run s t) (found : s.workers.get? w = some y)
    (history : t.history w = s.history w ++ more)
    (errors : ∀ a ∈ more, ∃ fault, a.2 = .error fault) :
    ∃ z, t.workers.get? w = some z ∧ z.key = y.key ∧ z.identity = y.identity := by
  obtain ⟨z, here, later⟩ := run.later.workers w y found
  have same := run.identity?_of_still history fun a inside ↦ by
    obtain ⟨fault, failed⟩ := errors a inside
    rw [failed]
    rfl
  rw [identity?, identity?, here, found] at same
  exact ⟨z, here, later.key, same⟩

/-- A worker that answers with an error does so for a reason of its own, keeps its identity, and
goes on: it looks for something else to do, with its mailbox and the directory as before. -/
theorem kept_of_error (found : s.workers.get? w = some y) (own : ∀ e ∈ y.envelopes, e.key = y.key)
    (taken : s.step = some t) (history : t.history w = s.history w ++ [(c, .error fault)]) :
    fault.isWorkers = true ∧ ∃ z, t.workers.get? w = some z ∧ z.key = y.key ∧
      z.identity = y.identity ∧ z.activity = .idle ∧ z.cancelled = y.cancelled ∧
      z.mailbox.closed = y.mailbox.closed ∧ t.directory = s.directory := by
  obtain ⟨e, z, rfl, answered⟩ := answered_of_step found own taken history
  have answers := answered.answers
  refine ⟨?_, z, answered.here, answered.key, answers.keeps rfl, answered.idle,
    answered.cancelled, answered.closed, answered.directory⟩
  generalize done : ((.error fault, z.identity) : Result × Option Identity) = result at answers
  cases answers with
  | misrouted foreign => exact absurd (own e answered.inside) foreign
  | served serves => exact serves.refuses (congrArg Prod.fst done).symm
  | finished finishes => exact finishes.refuses (congrArg Prod.fst done).symm

/-- Where a worker has answered with an error, there is a request that a clerk would have failed. -/
theorem Chronicle.setback (h : Chronicle policy connector record s)
    (found : s.workers.get? w = some y)
    (history : s.history w = first ++ (c, .error fault) :: others) :
    ∃ (b : (s.clerk y).Setback) (rest : List Answer), b.first = first.map (·.2) ∧ b.fault = fault ∧
      b.others = others.map (·.2) ∧ b.last = y.identity ∧
      s.served w = b.before ++ b.request :: b.after ∧
      answersTo record w = b.told ++ (b.mine ++ (b.later ++ rest)) := by
  obtain ⟨rest, -, worked⟩ := (h.serial found).worked
  rw [history, List.map_append, List.map_cons] at worked
  obtain ⟨b, parts⟩ := Clerk.setback_of_work worked
  exact ⟨b, rest, parts⟩

/-- A worker that was asked the same but for the request that failed, and told the same but for
what was used for it, has answered the same to everything else and has the same identity. -/
theorem Chronicle.spared {k : Clerk} (h : Chronicle policy connector record s)
    (found : s.workers.get? w = some y) (same : s.clerk y = k) (b : k.Setback)
    (served : s.served w = b.before ++ b.after)
    (told : answersTo record w = b.told ++ (b.later ++ rest)) :
    (s.history w).map (·.2) = b.first ++ b.others ∧ y.identity = b.last := by
  subst same
  obtain ⟨left, -, worked⟩ := (h.serial found).worked
  rw [served, told, ← List.append_assoc, Clerk.work_append b.without rest] at worked
  obtain ⟨same, -⟩ := Prod.mk.inj (Option.some.inj worked)
  obtain ⟨results, identity⟩ := Prod.mk.inj same
  exact ⟨results.symm, identity.symm⟩

/-- Requests that fail leave no trace. While a worker answers nothing but errors, whatever else goes
on, its identity stays as it was. A worker that answers one error gives a reason of its own and goes
on, open to further requests. And where a worker has answered with an error, its requests and what
ledgers have told it fall into what came before, the request that failed with the lookups that were
made for it, and what came after; any worker for the same key, in whatever run, that was asked the
same without the request that failed, and told the same without those lookups, has given the same
answers to everything else and has come to the same identity. -/
theorem failures_leave_no_trace :
    (∀ (s t : State) (w : WorkerId) (y : Worker) (more : List (CallerId × Result)),
      Run s t → s.workers.get? w = some y → t.history w = s.history w ++ more →
        (∀ a ∈ more, ∃ fault, a.2 = .error fault) →
          ∃ z, t.workers.get? w = some z ∧ z.key = y.key ∧ z.identity = y.identity) ∧
    (∀ (s t : State) (w : WorkerId) (y : Worker) (c : CallerId) (fault : Failure),
      s.Reachable ∨ (∀ e ∈ y.envelopes, e.key = y.key) → s.workers.get? w = some y →
        s.step = some t → t.history w = s.history w ++ [(c, .error fault)] →
          fault.isWorkers = true ∧ ∃ z, t.workers.get? w = some z ∧ z.key = y.key ∧
            z.identity = y.identity ∧ z.activity = .idle ∧ z.cancelled = y.cancelled ∧
            z.mailbox.closed = y.mailbox.closed ∧ t.directory = s.directory ∧
            (s.Reachable → z.mailbox.closed = false)) ∧
    ∀ (policy : Policy) (connector : Ledger.Connector) (record : List (WorkerId × Answer))
      (s : State) (w : WorkerId) (y : Worker) (first others : List (CallerId × Result))
      (c : CallerId) (fault : Failure),
      Chronicle policy connector record s → s.workers.get? w = some y →
        s.history w = first ++ (c, .error fault) :: others →
          ∃ (b : (s.clerk y).Setback) (rest : List Answer),
            b.first = first.map (·.2) ∧ b.fault = fault ∧ b.others = others.map (·.2) ∧
            b.last = y.identity ∧ s.served w = b.before ++ b.request :: b.after ∧
            answersTo record w = b.told ++ (b.mine ++ (b.later ++ rest)) ∧
            ∀ (policy' : Policy) (connector' : Ledger.Connector)
              (record' : List (WorkerId × Answer)) (s' : State) (w' : WorkerId) (y' : Worker)
              (rest' : List Answer),
              Chronicle policy' connector' record' s' → s'.workers.get? w' = some y' →
                s'.clerk y' = s.clerk y → s'.served w' = b.before ++ b.after →
                  answersTo record' w' = b.told ++ (b.later ++ rest') →
                    (s'.history w').map (·.2) = (first ++ others).map (·.2) ∧
                      y'.identity = y.identity := by
  refine ⟨fun s t w y more run found history errors ↦ run.kept_of_errors found history errors,
    fun s t w y c fault sound found taken history ↦ ?_,
    fun policy connector record s w y first others c fault h found history ↦ ?_⟩
  · have own : ∀ e ∈ y.envelopes, e.key = y.key :=
      sound.elim (fun h _ ↦ h.ordered.filed.matched found) id
    obtain ⟨cause, z, here, key, identity, idle, told, closed, listed⟩ :=
      kept_of_error found own taken history
    refine ⟨cause, z, here, key, identity, idle, told, closed, listed, fun h ↦ ?_⟩
    rw [(h.run (.single (.step taken))).ordered.owned.shut here, idle]
    rfl
  · obtain ⟨b, rest, begins, fails, ends, last, served, told⟩ := h.setback found history
    refine ⟨b, rest, begins, fails, ends, last, served, told, ?_⟩
    intro policy' connector' record' s' w' y' rest' h' found' same served' told'
    obtain ⟨results, identity⟩ := h'.spared found' same b served' told'
    rw [results, begins, ends, List.map_append]
    exact ⟨rfl, identity.trans last⟩

/-- Requests for an identity, for a signature without gas, and for another signature. -/
def trialFailing : List Request :=
  [trialGenerate "main", .sign ⟨none, 1, 0, [0], none⟩, trialSign]

/-- The same requests without the one that fails. -/
def trialSparing : List Request :=
  [trialGenerate "main", trialSign]

/-- A worker that is asked for a signature without gas keeps its identity and goes on, and answers
the next request as a worker does that was not asked for that signature. -/
theorem failures_leave_no_trace_unfuelled :
    (∃ y z fault, (trialCalls 15 trialFailing).workers.get? 0 = some y ∧
      (trialCalls 16 trialFailing).workers.get? 0 = some z ∧
      (trialCalls 16 trialFailing).history 0 =
        (trialCalls 15 trialFailing).history 0 ++ [(1, .error fault)] ∧
      z.identity = y.identity ∧ z.activity = .idle ∧ z.mailbox.closed = false) ∧
    ∃ first others fault,
      (trialCalls 40 trialFailing).history 0 = first ++ (1, .error fault) :: others ∧
      ((trialCalls 40 trialSparing).history 0).map (·.2) = (first ++ others).map (·.2) ∧
      (trialCalls 40 trialSparing).identity? 0 = (trialCalls 40 trialFailing).identity? 0 := by
  constructor
  · have taken : (trialCalls 15 trialFailing).step = some (trialCalls 16 trialFailing) := rfl
    obtain ⟨y, found⟩ : ∃ y, (trialCalls 15 trialFailing).workers.get? 0 = some y := ⟨_, rfl⟩
    obtain ⟨fault, answered⟩ : ∃ fault, (trialCalls 16 trialFailing).history 0 =
        (trialCalls 15 trialFailing).history 0 ++ [(1, .error fault)] := ⟨_, rfl⟩
    have reachable : (trialCalls 15 trialFailing).Reachable := ⟨_, _, run_trialCalls _ _⟩
    obtain ⟨z, here, -, identity⟩ := failures_leave_no_trace.1 _ _ 0 y [(1, .error fault)]
      (.single (.step taken)) found answered
      fun a inside ↦ ⟨fault, congrArg Prod.snd (List.mem_singleton.mp inside)⟩
    obtain ⟨-, z', here', -, -, idle, -, -, -, opened⟩ :=
      failures_leave_no_trace.2.1 _ _ 0 y 1 fault (.inl reachable) found taken answered
    obtain rfl := Option.some.inj (here.symm.trans here')
    exact ⟨y, z, fault, found, here, answered, identity, idle, opened reachable⟩
  · obtain ⟨record, h⟩ := (run_trialCalls 40 trialFailing).chronicle
    obtain ⟨record', h'⟩ := (run_trialCalls 40 trialSparing).chronicle
    obtain ⟨y, found, key⟩ : ∃ y, (trialCalls 40 trialFailing).workers.get? 0 = some y ∧
        y.key = "treasury" := ⟨_, rfl, rfl⟩
    obtain ⟨y', found', key'⟩ : ∃ y, (trialCalls 40 trialSparing).workers.get? 0 = some y ∧
        y.key = "treasury" := ⟨_, rfl, rfl⟩
    obtain ⟨first, others, fault, history, one⟩ : ∃ first others fault,
        (trialCalls 40 trialFailing).history 0 = first ++ (1, .error fault) :: others ∧
          first.length = 1 :=
      ⟨((trialCalls 40 trialFailing).history 0).take 1,
        ((trialCalls 40 trialFailing).history 0).drop 2, _, rfl, rfl⟩
    have asked : (trialCalls 40 trialFailing).served 0 = trialFailing := rfl
    have asked' : (trialCalls 40 trialSparing).served 0 = trialSparing := rfl
    have same : (trialCalls 40 trialSparing).clerk y' = (trialCalls 40 trialFailing).clerk y := by
      have kept := (run_trialCalls 40 trialFailing).later
      have kept' := (run_trialCalls 40 trialSparing).later
      rw [clerk, clerk, key, key', kept.connector, kept'.connector, kept.policy, kept'.policy]
    generalize trialCalls 40 trialFailing = s at h found history asked same ⊢
    generalize trialCalls 40 trialSparing = s' at h' found' asked' same ⊢
    obtain ⟨b, rest, begins, -, -, -, served, -, spared⟩ :=
      failures_leave_no_trace.2.2 _ _ record s 0 y first others 1 fault h found history
    have count : b.before.length = 1 := by
      rw [← Clerk.length_of_work b.begun, begins, List.length_map, one]
    have parts : [trialGenerate "main"] ++ trialFailing.tail = b.before ++ b.request :: b.after :=
      asked.symm.trans served
    obtain ⟨before, rest⟩ := List.append_inj parts count.symm
    obtain ⟨-, after⟩ := List.cons.inj rest
    -- Nobody has asked for a synchronisation, so no answer of a ledger was used.
    have told : b.told = [] := by
      refine (Clerk.work_unasked (fun q inside ↦ ?_) b.begun).symm
      rw [← before, List.mem_singleton] at inside
      exact inside ▸ Request.noConfusion
    have later : b.later = [] := by
      refine (Clerk.work_unasked (fun q inside ↦ ?_) b.ended).symm
      rw [← after, List.mem_singleton] at inside
      exact inside ▸ Request.noConfusion
    obtain ⟨results, identity⟩ := spared _ _ record' s' 0 y' (answersTo record' 0) h' found' same
      (by rw [asked', ← before, ← after]; rfl) (by rw [told, later]; rfl)
    refine ⟨first, others, fault, history, results, ?_⟩
    rw [identity?, identity?, found, found', Option.bind_some, Option.bind_some, identity]

end State

end Signatory.Service
