import Mathlib.Data.List.Basic
import Signatory.Proofs.Service.Clerk
import Signatory.Proofs.Service.Directory
import Signatory.Proofs.Service.Numbering

/-!
# One request after the other, whatever happens meanwhile

What a worker answers, and the identity that it is left with, is what serving the same requests one
after the other comes to, given the same answers from the ledgers. A chronicle is a run in which
those answers are written down: the only steps that ask a ledger are those in which a worker that
synchronises makes its next lookup.
-/

namespace Signatory.Service.State

variable {s t : State} {τ : Task} {w v : WorkerId} {y z : Worker} {e : Envelope} {x : Caller}
  {c : CallerId} {r : Result} {answers rest more : List Answer} {policy : Policy}
  {connector : Ledger.Connector} {record : List (WorkerId × Answer)}

/-- What a ledger answers to a worker, if the worker makes a lookup when it runs. -/
def answerTo? (s : State) (y : Worker) : Option Answer :=
  match y.activity, y.identity with
  | .syncing _ _ alarm, some i =>
    if alarm.time ≤ s.now then some (s.lookup i.ledger i.address).1 else none
  | _, _ => none

/-- The lookup that the next step makes: which worker makes it, and what the ledger answers. -/
def consultation? (s : State) : Option (WorkerId × Answer) :=
  match s.running with
  | some (.worker w) => (s.workers.get? w).bind fun y ↦ (s.answerTo? y).map fun a ↦ (w, a)
  | _ => none

/-- The states of a service, with what ledgers have answered so far. -/
inductive Chronicle (policy : Policy) (connector : Ledger.Connector) :
    List (WorkerId × Answer) → State → Prop
  | start : Chronicle policy connector [] (start policy connector)
  | step {record : List (WorkerId × Answer)} {s t : State} (h : Chronicle policy connector record s)
    (taken : s.step = some t) :
    Chronicle policy connector (record ++ s.consultation?.toList) t
  | use {record : List (WorkerId × Answer)} {s t : State} (h : Chronicle policy connector record s)
    (next : Next s t) (use : Use s.bare t.bare) : Chronicle policy connector record t

/-- What happens in a chronicle is a run. -/
theorem Chronicle.run (h : Chronicle policy connector record s) :
    Run (State.start policy connector) s := by
  induction h with
  | start => exact .refl
  | step _ taken ih => exact ih.tail (.step taken)
  | use _ next _ ih => exact ih.tail next

theorem Chronicle.reachable (h : Chronicle policy connector record s) : s.Reachable :=
  ⟨policy, connector, h.run⟩

/-- Every run is that of a chronicle. -/
theorem Run.chronicle (run : Run (State.start policy connector) s) :
    ∃ record, Chronicle policy connector record s := by
  induction run with
  | refl => exact ⟨[], .start⟩
  | tail _ next ih =>
    obtain ⟨record, h⟩ := ih
    have used {t : State} (next : Next _ t) (use : Use _ t.bare) :
        ∃ record, Chronicle policy connector record t := ⟨record, h.use next use⟩
    cases next with
    | step taken => exact ⟨_, h.step taken⟩
    | dispatch key request => exact used (.dispatch _ key request) (.dispatch key request)
    | drop c => exact used (.drop _ c) (use_dropCaller _ c)
    | remove key => exact used (.remove _ key) (use_remove _ key)
    | shutdown => exact used (.shutdown _) (use_shutdown _)
    | ledger name l => exact used (.ledger _ name l) (.ledger name l)
    | wait later => exact used (.wait _ later) (.wait later)
    | schedule same => exact used (.schedule same) (same ▸ .rest)

/-- What ledgers have answered to one worker. -/
def answersTo (record : List (WorkerId × Answer)) (w : WorkerId) : List Answer :=
  record.filterMap fun entry ↦ if entry.1 = w then some entry.2 else none

/-- The requests that a worker has answered, the earliest first. -/
def served (s : State) (w : WorkerId) : List Request :=
  (s.history w).filterMap fun a ↦ (s.callers.get? a.1).map (·.request)

/-- Who would do the same as a worker, one request after the other. -/
def clerk (s : State) (y : Worker) : Clerk :=
  ⟨y.key, s.connector, s.policy.sync⟩

/-- What of the answers of the ledgers belongs to a request that is not answered yet. -/
def Pending (k : Clerk) (y : Worker) (rest : List Answer) : Prop :=
  match y.activity, y.identity with
  | .syncing _ attempt _, some i =>
    ∀ more, k.consult i 1 (rest ++ more) = k.consult i attempt more
  | _, _ => rest = []

/-- A worker has answered what serving its requests one after the other comes to. -/
structure Replays (s : State) (w : WorkerId) (answers : List Answer) : Prop where
  known : ∀ a ∈ s.history w, ∃ x, s.callers.get? a.1 = some x
  fresh : s.workers.get? w = none → s.history w = [] ∧ answers = []
  worked : ∀ y, s.workers.get? w = some y → ∃ rest, Pending (s.clerk y) y rest ∧
    (s.clerk y).work none answers (s.served w) =
      some (((s.history w).map (·.2), y.identity), rest)

section Pending

variable {k : Clerk}

/-- Nothing is left over while a worker does not synchronise. -/
theorem pending_iff (other : ∀ e attempt alarm, y.activity ≠ .syncing e attempt alarm) :
    Pending k y rest ↔ rest = [] := by
  unfold Pending
  split
  next e attempt alarm i syncing known => exact absurd syncing (other e attempt alarm)
  next => exact Iff.rfl

theorem pending_idle (idle : y.activity = .idle) : Pending k y rest ↔ rest = [] :=
  pending_iff (by simp [idle])

/-- What is left over while a worker synchronises stands for the lookups that it has made. -/
theorem pending_syncing {attempt : Nat} {alarm : Alarm} {i : Identity}
    (syncing : y.activity = .syncing e attempt alarm) (known : y.identity = some i) :
    Pending k y rest ↔ ∀ more, k.consult i 1 (rest ++ more) = k.consult i attempt more := by
  unfold Pending
  rw [syncing, known]

theorem pending_congr (activity : z.activity = y.activity) (identity : z.identity = y.identity) :
    Pending k z rest ↔ Pending k y rest := by
  unfold Pending
  rw [activity, identity]

end Pending

/-- The requests that have been answered stay the same. -/
theorem Replays.requests (h : s.Replays w answers) (later : s.Later t) :
    (s.history w).filterMap (fun a ↦ (t.callers.get? a.1).map (·.request)) = s.served w := by
  apply List.filterMap_congr
  intro a inside
  obtain ⟨x, found⟩ := h.known a inside
  obtain ⟨x', found', same⟩ := later.callers _ x found
  rw [found, found', Option.map_some, Option.map_some, same.request]

theorem clerk_later (later : s.Later t) (key : z.key = y.key) : t.clerk z = s.clerk y := by
  rw [clerk, clerk, later.connector, later.policy, key]

/-- A worker goes on without an answer. -/
theorem Replays.keep (h : s.Replays w answers) (later : s.Later t)
    (history : t.history w = s.history w)
    (kept : ∀ z, t.workers.get? w = some z →
      (s.workers.get? w = none ∧ z.activity = .idle ∧ z.identity = none) ∨
        ∃ y, s.workers.get? w = some y ∧ z.identity = y.identity ∧
          ∀ k rest, Pending k y rest → Pending k z rest) : t.Replays w answers where
  known := by
    intro a inside
    obtain ⟨x, found⟩ := h.known a (history ▸ inside)
    obtain ⟨x', found', -⟩ := later.callers _ x found
    exact ⟨x', found'⟩
  fresh := by
    intro missing
    rw [history]
    apply h.fresh
    cases found : s.workers.get? w with
    | none => rfl
    | some y =>
      obtain ⟨z, there, -⟩ := later.workers w y found
      exact absurd (missing.symm.trans there) (by simp)
  worked := by
    intro z there
    have same : t.served w = s.served w := by
      rw [served, history]
      exact h.requests later
    rcases kept z there with ⟨missing, idle, unknown⟩ | ⟨y, found, identity, pending⟩
    · obtain ⟨none, empty⟩ := h.fresh missing
      refine ⟨[], (pending_idle idle).mpr rfl, ?_⟩
      rw [same, served, history, none, empty, unknown]
      rfl
    · obtain ⟨z', there', becomes⟩ := later.workers w y found
      obtain rfl := Option.some.inj (there.symm.trans there')
      obtain ⟨rest, left, worked⟩ := h.worked y found
      rw [clerk_later later becomes.key, same, history, identity]
      exact ⟨rest, pending _ _ left, worked⟩

/-- A worker answers a request; the ledgers may have answered something meanwhile. -/
theorem Replays.answer (h : s.Replays w answers) (later : s.Later t)
    (found : s.workers.get? w = some y) (there : t.workers.get? w = some z)
    (history : t.history w = s.history w ++ [(e.caller, r)])
    (carried : ∃ x, s.callers.get? e.caller = some x ∧ x.request = e.request)
    (idle : z.activity = .idle)
    (serves : ∀ rest, Pending (s.clerk y) y rest →
      (s.clerk y).serve y.identity (rest ++ more) e.request = some ((r, z.identity), [])) :
    t.Replays w (answers ++ more) where
  known := by
    intro a inside
    have before : ∃ x, s.callers.get? a.1 = some x := by
      rw [history] at inside
      rcases List.mem_append.mp inside with old | new
      · exact h.known a old
      · obtain rfl := List.mem_singleton.mp new
        exact carried.imp fun _ ↦ And.left
    obtain ⟨x, known⟩ := before
    obtain ⟨x', known', -⟩ := later.callers _ x known
    exact ⟨x', known'⟩
  fresh := fun missing ↦ absurd (missing.symm.trans there) (by simp)
  worked := by
    intro z' there'
    obtain rfl := Option.some.inj (there.symm.trans there')
    obtain ⟨z', there', becomes⟩ := later.workers w y found
    obtain rfl := Option.some.inj (there.symm.trans there')
    obtain ⟨rest, left, worked⟩ := h.worked y found
    obtain ⟨x, asker, request⟩ := carried
    obtain ⟨x', asker', same⟩ := later.callers _ x asker
    have requests : t.served w = s.served w ++ [e.request] := by
      rw [served, history, List.filterMap_append, h.requests later, List.filterMap_cons,
        List.filterMap_nil]
      dsimp only
      rw [asker', Option.map_some, same.request, request]
    refine ⟨[], (pending_idle idle).mpr rfl, ?_⟩
    rw [clerk_later later becomes.key, requests, history, List.map_append]
    exact Clerk.work_concat (Clerk.work_append worked more) (serves rest left)

/-- A worker makes a lookup that leads to another. -/
theorem Replays.look {attempt : Nat} {alarm : Alarm} {i : Identity} {a : Answer}
    (h : s.Replays w answers) (later : s.Later t) (found : s.workers.get? w = some y)
    (syncing : y.activity = .syncing e attempt alarm) (known : y.identity = some i)
    (there : ∃ next, t.workers.get? w =
      some { y with activity := .syncing e (attempt + 1) next })
    (history : t.history w = s.history w)
    (undecided : ∀ more, (s.clerk y).consult i attempt (a :: more) =
      (s.clerk y).consult i (attempt + 1) more) : t.Replays w (answers ++ [a]) where
  known := by
    intro b inside
    obtain ⟨x, found⟩ := h.known b (history ▸ inside)
    obtain ⟨x', found', -⟩ := later.callers _ x found
    exact ⟨x', found'⟩
  fresh := by
    intro missing
    obtain ⟨next, there⟩ := there
    exact absurd (missing.symm.trans there) (by simp)
  worked := by
    intro z there'
    obtain ⟨next, there⟩ := there
    obtain rfl := Option.some.inj (there.symm.trans there')
    obtain ⟨rest, left, worked⟩ := h.worked y found
    have same : t.served w = s.served w := by
      rw [served, history]
      exact h.requests later
    have clerk : t.clerk { y with activity := .syncing e (attempt + 1) next } = s.clerk y :=
      clerk_later later rfl
    rw [clerk, same, history]
    refine ⟨rest ++ [a], (pending_syncing rfl (by exact known)).mpr fun more ↦ ?_,
      Clerk.work_append worked [a]⟩
    rw [List.append_assoc, (pending_syncing syncing known).mp left]
    exact undecided more

/-- A change that a worker does not make leaves it as it is, or creates it. -/
theorem Change.apart (change : Change s τ t) (other : τ ≠ .worker w) :
    t.history w = s.history w ∧ ∀ z, t.workers.get? w = some z →
      (s.workers.get? w = none ∧ z.activity = .idle ∧ z.identity = none) ∨
        ∃ y, s.workers.get? w = some y ∧ z.identity = y.identity ∧ z.activity = y.activity := by
  have elsewhere {v : WorkerId} {y : Worker} (moved : τ = .worker v) (z : Worker)
      (here : (s.workers.set v y).get? w = some z) :
      (s.workers.get? w = none ∧ z.activity = .idle ∧ z.identity = none) ∨
        ∃ y, s.workers.get? w = some y ∧ z.identity = y.identity ∧ z.activity = y.activity := by
    rw [Table.get?_set_ne fun same ↦ other (moved.trans (congrArg _ same))] at here
    exact .inr ⟨z, here, rfl, rfl⟩
  have kept {v : WorkerId} {y next : Worker} (found : s.workers.get? v = some y)
      (identity : next.identity = y.identity) (activity : next.activity = y.activity) (z : Worker)
      (here : (s.workers.set v next).get? w = some z) :
      (s.workers.get? w = none ∧ z.activity = .idle ∧ z.identity = none) ∨
        ∃ y, s.workers.get? w = some y ∧ z.identity = y.identity ∧ z.activity = y.activity := by
    rcases Table.of_set found here with ⟨rfl, rfl⟩ | ⟨-, here⟩
    · exact .inr ⟨y, found, identity, activity⟩
    · exact .inr ⟨z, here, rfl, rfl⟩
  have silent {c : CallerId} {v : WorkerId} {r : Result} {earlier : List Event}
      (moved : τ = .worker v) :
      ((Event.answered c v r :: earlier).filterMap (Event.answer? w)).reverse =
        (earlier.filterMap (Event.answer? w)).reverse := by
    rw [history_answered, if_neg fun same ↦ other (moved.trans (congrArg _ same)), List.append_nil]
  cases change with
  | leave =>
    refine ⟨?_, elsewhere rfl⟩
    rw [history, events, List.map_append, List.filterMap_append, answer?_returns]
    rfl
  | die => exact ⟨rfl, elsewhere rfl⟩
  | skip => exact ⟨rfl, elsewhere rfl⟩
  | misroute => exact ⟨silent rfl, elsewhere rfl⟩
  | connect => exact ⟨rfl, elsewhere rfl⟩
  | lookup => exact ⟨rfl, elsewhere rfl⟩
  | serve => exact ⟨silent rfl, elsewhere rfl⟩
  | finish => exact ⟨silent rfl, elsewhere rfl⟩
  | again => exact ⟨rfl, elsewhere rfl⟩
  | spawn =>
    refine ⟨rfl, fun z here ↦ ?_⟩
    rcases Table.of_push here with ⟨-, rfl, missing⟩ | here
    · exact .inl ⟨missing, rfl, rfl⟩
    · exact .inr ⟨z, here, rfl, rfl⟩
  | push offers found => exact ⟨rfl, kept found (by rfl) (by rfl)⟩
  | suspend offers found => exact ⟨rfl, kept found (by rfl) (by rfl)⟩
  | occupy known suspended found => exact ⟨rfl, kept found (by rfl) (by rfl)⟩
  | withdraw =>
    refine ⟨rfl, fun z here ↦ ?_⟩
    obtain ⟨y, found, ⟨-, rfl⟩ | ⟨-, rfl⟩⟩ := Table.of_update here
    · exact .inr ⟨y, found, rfl, rfl⟩
    · exact .inr ⟨z, found, rfl, rfl⟩
  | _ => exact ⟨rfl, fun z here ↦ .inr ⟨z, here, rfl, rfl⟩⟩

/-- Whoever has an envelope with a worker has asked for what it says. -/
theorem asker_of_carried (owned : Owned s.workers s.callers) (found : s.workers.get? w = some y)
    (inside : e ∈ y.envelopes) : ∃ x, s.callers.get? e.caller = some x ∧ x.request = e.request := by
  obtain ⟨x, known, -, request⟩ := owned.carried found inside
  exact ⟨x, known, request⟩

/-- A worker that is due makes a lookup. -/
theorem answerTo?_of_due {attempt : Nat} {alarm : Alarm} {i : Identity}
    (syncing : y.activity = .syncing e attempt alarm) (due : alarm.time ≤ s.now)
    (known : y.identity = some i) : s.answerTo? y ≠ none := by
  unfold answerTo?
  rw [syncing, known]
  dsimp only
  rw [if_pos due]
  exact Option.some_ne_none _

/-- What is answered at once is what serving the request comes to. -/
theorem Serves.served {request : Request} {done : Result × Option Identity}
    (serves : Serves y request done) :
    (s.clerk y).serve y.identity [] request = some (done, []) := by
  cases serves with
  | sign d => rfl
  | query q => rfl
  | sync unknown =>
    unfold Clerk.serve
    rw [unknown]
    rfl

/-- What is answered when a wait is over is what serving the request comes to, if no ledger is
asked. -/
theorem Finishes.served {done : Result × Option Identity} {ledgers : List (String × Ledger.Memory)}
    (asked : Asked s.connector s.workers) (found : s.workers.get? w = some y)
    (finishes : Finishes s y e done ledgers) (silent : s.answerTo? y = none)
    (left : Pending (s.clerk y) y rest) :
    (s.clerk y).serve y.identity rest e.request = some (done, []) := by
  cases finishes with
  | refused connecting =>
    obtain ⟨request, outcome⟩ := asked.connects found connecting
    rw [(pending_iff (by simp [connecting])).mp left, request, Clerk.serve]
    have same : ((s.clerk y).connector _).outcome = _ := outcome.symm
    rw [same]
  | connected connecting =>
    obtain ⟨request, outcome⟩ := asked.connects found connecting
    rw [(pending_iff (by simp [connecting])).mp left, request, Clerk.serve]
    have same : ((s.clerk y).connector _).outcome = _ := outcome.symm
    rw [same]
  | unknown syncing due unknown =>
    have none : rest = [] := by
      unfold Pending at left
      rw [syncing, unknown] at left
      exact left
    rw [none, asked.syncs found syncing, unknown]
    rfl
  | synced syncing due known => exact absurd silent (answerTo?_of_due syncing due known)

/-- A worker that does something else goes on without an answer. -/
theorem Replays.hold (h : s.Replays w answers) (later : s.Later t)
    (found : s.workers.get? w = some y) (workers : t.workers = s.workers.set w z)
    (history : t.history w = s.history w) (identity : z.identity = y.identity)
    (pending : ∀ k rest, Pending k y rest → Pending k z rest) : t.Replays w answers := by
  refine h.keep later history fun z' there ↦ .inr ⟨y, found, ?_⟩
  rw [workers] at there
  obtain rfl := Table.eq_of_set found there
  exact ⟨identity, pending⟩

/-- A worker answers a request that it has, and no ledger is asked. -/
theorem Replays.reply (h : s.Replays w answers) (later : s.Later t)
    (owned : Owned s.workers s.callers) (found : s.workers.get? w = some y)
    (inside : e ∈ y.envelopes) (workers : t.workers = s.workers.set w z)
    (events : t.events.filterMap (Event.answer? w) =
      (e.caller, r) :: s.events.filterMap (Event.answer? w))
    (idle : z.activity = .idle)
    (serves : ∀ rest, Pending (s.clerk y) y rest →
      (s.clerk y).serve y.identity rest e.request = some ((r, z.identity), [])) :
    t.Replays w answers := by
  have there : t.workers.get? w = some z := by
    rw [workers, Table.get?_set_self found]
  have history : t.history w = s.history w ++ [(e.caller, r)] := by
    rw [history, events, List.reverse_cons]
    rfl
  have answered : t.Replays w (answers ++ []) := by
    refine h.answer later found there history (asker_of_carried owned found inside) idle
      fun rest left ↦ ?_
    rw [List.append_nil]
    exact serves rest left
  rwa [List.append_nil] at answered

/-- A worker that does something without asking a ledger has still answered what serving its
requests one after the other comes to. -/
theorem Change.replays (h : s.Replays w answers) (ordered : s.Ordered)
    (asked : Asked s.connector s.workers) (change : Change s (.worker w) t)
    (silent : ∀ y, s.workers.get? w = some y → s.answerTo? y = none) : t.Replays w answers := by
  have later := change.later
  have owned := ordered.owned
  have own {c : CallerId} {r : Result} {earlier : List Event} :
      (Event.answered c w r :: earlier).filterMap (Event.answer? w) =
        (c, r) :: earlier.filterMap (Event.answer? w) := by
    rw [List.filterMap_cons, Event.answer?, if_pos rfl]
  -- A worker whose hand is empty has nothing left over, and so has one that begins to connect.
  cases change with
  | rest => exact h
  | leave found idle =>
    refine h.hold later found rfl ?_ rfl fun k rest left ↦ ?_
    · rw [history, events, List.map_append, List.filterMap_append, answer?_returns]
      rfl
    · exact (pending_iff (by simp)).mpr ((pending_idle idle).mp left)
  | die found cause =>
    refine h.hold later found rfl rfl rfl fun k rest left ↦ (pending_iff (by simp)).mpr ?_
    cases cause with
    | crashed connecting => exact (pending_iff (by simp [connecting])).mp left
    | outOfReach takes => exact (pending_idle takes.idle).mp left
  | skip takes => exact h.hold later takes.found rfl rfl rfl fun _ _ ↦ (pending_congr rfl rfl).mpr
  | misroute takes waits foreign =>
    exact absurd (ordered.filed.matched takes.found (takes.envelopes ▸ List.mem_cons_self)) foreign
  | connect accepts =>
    exact h.hold later accepts.found rfl rfl rfl fun k rest left ↦
      (pending_iff (by simp)).mpr ((pending_idle accepts.idle).mp left)
  | lookup accepts request known =>
    refine h.hold later accepts.found rfl rfl rfl fun k rest left ↦
      (pending_syncing rfl (by exact known)).mpr fun more ↦ ?_
    rw [(pending_idle accepts.idle).mp left, List.nil_append]
  | @serve _ worker e rest deadline done accepts serves =>
    have inside : e ∈ worker.envelopes := accepts.toTakes.envelopes ▸ List.mem_cons_self
    refine h.reply later owned accepts.found inside rfl own rfl fun rest left ↦ ?_
    rw [(pending_idle accepts.idle).mp left]
    exact serves.served
  | @finish _ worker e done ledgers found finishes =>
    have inside : e ∈ worker.envelopes := List.mem_append_left _ (Option.mem_toList.mpr finishes.hand)
    exact h.reply later owned found inside rfl own rfl fun rest left ↦
      finishes.served asked found (silent _ found) left
  | again found syncing due known =>
    exact absurd (silent _ found) (answerTo?_of_due syncing due known)

/-- A worker that makes a lookup goes on with what the ledger answers. -/
theorem replays_lookedUp {attempt : Nat} {alarm : Alarm} {i : Identity}
    (h : s.bare.Replays w answers) (ordered : s.bare.Ordered)
    (asked : Asked s.connector s.workers) (found : s.bare.workers.get? w = some y)
    (syncing : y.activity = .syncing e attempt alarm) (known : y.identity = some i)
    (later : s.bare.Later (s.lookedUp w y e attempt).bare) :
    (s.lookedUp w y e attempt).bare.Replays w
      (answers ++ [(s.lookup i.ledger i.address).1]) := by
  have policy : (s.lookup i.ledger i.address).2.policy = s.policy := by
    cases i.ledger <;> rfl
  have request := asked.syncs found syncing
  have inside : e ∈ y.envelopes :=
    List.mem_append_left _ (Option.mem_toList.mpr (by rw [syncing]; rfl))
  have sync : (s.bare.clerk y).sync = s.policy.sync := rfl
  rcases verdict : handleAnswer s.policy.sync i attempt (s.lookup i.ledger i.address).1 with
    ⟨_ | r, next⟩
  · have goes : s.lookedUp w y e attempt =
        (s.lookup i.ledger i.address).2.beginLookup w e (attempt + 1) s.policy.sync.backoff := by
      simp only [lookedUp, known, policy, verdict]
    have consults (more : List Answer) : (s.bare.clerk y).consult i attempt
        ((s.lookup i.ledger i.address).1 :: more) =
          (s.bare.clerk y).consult i (attempt + 1) more := by
      simp only [Clerk.consult, sync, verdict]
    rw [goes, bare_beginLookup, bare_lookup] at later ⊢
    have there (f : Worker → Worker) : (s.bare.workers.update w f).get? w = some (f y) :=
      Table.get?_update_self found
    exact h.look later found syncing known ⟨_, there _⟩ rfl consults
  · have goes : s.lookedUp w y e attempt =
        (s.lookup i.ledger i.address).2.complete w e (r, some next) := by
      simp only [lookedUp, known, policy, verdict]
    have consults : (s.bare.clerk y).consult i attempt [(s.lookup i.ledger i.address).1] =
        some ((r, some next), []) := by
      simp only [Clerk.consult, sync, verdict]
    rw [goes, bare_complete, bare_lookup] at later ⊢
    refine h.answer (r := r) later found (z := { y with identity := some next, activity := .idle })
      ?_ ?_ (asker_of_carried ordered.owned found inside) rfl fun rest left ↦ ?_
    · exact Table.get?_update_self found
    · rw [history, events, List.map_cons, history_answered, if_pos rfl]
      rfl
    · rw [request, known]
      exact ((pending_syncing syncing known).mp left _).trans consults

/-- What is added to a chronicle concerns the worker that runs. -/
theorem answersTo_append (record more : List (WorkerId × Answer)) (w : WorkerId) :
    answersTo (record ++ more) w = answersTo record w ++ answersTo more w :=
  List.filterMap_append

/-- What other tasks do leaves a worker with what serving its requests one after the other comes
to. -/
theorem Changes.replays (h : s.Replays w answers) (other : τ ≠ .worker w)
    (changes : Changes τ s t) : t.Replays w answers := by
  induction changes with
  | refl => exact h
  | tail _ change ih =>
    obtain ⟨history, workers⟩ := change.apart other
    refine ih.keep change.later history fun z there ↦ (workers z there).imp id ?_
    rintro ⟨y, found, identity, activity⟩
    exact ⟨y, found, identity, fun k rest ↦ (pending_congr activity identity).mpr⟩

/-- What a ledger answers does not depend on the schedule. -/
theorem answerTo?_bare (s : State) (y : Worker) : s.bare.answerTo? y = s.answerTo? y := by
  unfold answerTo?
  simp only [lookup_bare]
  rfl

/-- A worker that is told something by a ledger makes a lookup. -/
theorem answerTo?_eq_some {a : Answer} : s.answerTo? y = some a ↔
    ∃ e attempt alarm i, y.activity = .syncing e attempt alarm ∧ y.identity = some i ∧
      alarm.time ≤ s.now ∧ a = (s.lookup i.ledger i.address).1 := by
  unfold answerTo?
  split
  next e attempt alarm i syncing known =>
    rw [syncing, known]
    constructor
    · intro answered
      split at answered
      next due => exact ⟨_, _, _, _, rfl, rfl, due, (Option.some.inj answered).symm⟩
      next => exact absurd answered (by simp)
    · rintro ⟨e', attempt', alarm', i', same, same', due, rfl⟩
      obtain ⟨rfl, rfl, rfl⟩ := Activity.syncing.inj same
      obtain rfl := Option.some.inj same'
      exact if_pos due
  next other =>
    refine ⟨fun none ↦ absurd none (by simp), ?_⟩
    rintro ⟨e, attempt, alarm, i, syncing, known, -⟩
    exact absurd known (other e attempt alarm i syncing)

/-- A worker that runs makes the lookup that is recorded, if any. -/
theorem answersTo_consultation? (running : s.running = some (.worker v)) (w : WorkerId) :
    answersTo s.consultation?.toList w =
      if v = w then ((s.workers.get? v).bind s.answerTo?).toList else [] := by
  unfold consultation?
  rw [running]
  dsimp only
  cases s.workers.get? v with
  | none => exact (ite_self _).symm
  | some y =>
    rw [Option.bind_some, Option.bind_some]
    cases s.answerTo? y with
    | none => exact (ite_self _).symm
    | some a =>
      unfold answersTo
      rw [Option.map_some, Option.toList_some, List.filterMap_cons]
      dsimp only
      by_cases same : v = w
      · rw [if_pos same, if_pos same]
        rfl
      · rw [if_neg same, if_neg same]
        rfl

/-- What a worker does in one step leaves it with what serving its requests one after the other
comes to. -/
theorem replays_stepWorker (h : s.bare.Replays w answers) (ordered : s.bare.Ordered)
    (asked : Asked s.connector s.workers) (running : s.running = some (.worker w)) :
    (s.stepWorker w).bare.Replays w
      (answers ++ ((s.workers.get? w).bind s.answerTo?).toList) := by
  cases found : s.workers.get? w with
  | none =>
    rw [Option.bind_none, Option.toList_none, List.append_nil, stepWorker, found]
    exact h
  | some y =>
    have found' : s.bare.workers.get? w = some y := found
    have works := stepWorker_works running found
    have stir : Stir s (.worker w) (s.stepWorker w) := by
      rcases works with stir | ⟨⟨e, inside, foreign⟩, -⟩
      · exact stir
      · exact absurd (ordered.filed.matched found' inside) foreign
    rw [Option.bind_some]
    cases told : s.answerTo? y with
    | none =>
      rw [Option.toList_none, List.append_nil]
      refine stir.change.replays h ordered asked fun y' there ↦ ?_
      obtain rfl := Option.some.inj (found'.symm.trans there)
      exact (answerTo?_bare s y).trans told
    | some a =>
      obtain ⟨e, attempt, alarm, i, syncing, known, due, rfl⟩ := answerTo?_eq_some.mp told
      have goes : s.stepWorker w = s.lookedUp w y e attempt := by
        rw [stepWorker, found]
        dsimp only
        rw [syncing]
        exact if_pos due
      have later := stir.change.later
      rw [goes] at later ⊢
      exact replays_lookedUp h ordered asked found' syncing known later

/-- Every step leaves a worker with what serving its requests one after the other comes to. -/
theorem replays_step (h : s.bare.Replays w answers) (ordered : s.bare.Ordered)
    (asked : Asked s.connector s.workers) (taken : s.step = some t) :
    t.bare.Replays w (answers ++ answersTo s.consultation?.toList w) := by
  have quiet (none : answersTo s.consultation?.toList w = []) (kept : t.bare.Replays w answers) :
      t.bare.Replays w (answers ++ answersTo s.consultation?.toList w) := by
    rw [none, List.append_nil]
    exact kept
  cases running : s.running with
  | none =>
    apply quiet
    · rw [consultation?, running]
      rfl
    · rcases step_changes taken with ⟨τ, runs, -⟩ | same
      · exact absurd (running.symm.trans runs) (by simp)
      · exact same ▸ h
  | some τ =>
    have changes := (step_stirs running taken).changes
    cases τ with
    | caller c =>
      apply quiet
      · rw [consultation?, running]
        rfl
      · exact changes.replays h Task.noConfusion
    | worker v =>
      have recorded := answersTo_consultation? running w
      by_cases own : v = w
      · subst own
        rw [if_pos rfl] at recorded
        unfold step at taken
        rw [running] at taken
        obtain rfl := Option.some.inj taken
        rw [recorded]
        exact replays_stepWorker h ordered asked running
      · rw [if_neg own] at recorded
        exact quiet recorded (changes.replays h fun same ↦ own (Task.worker.inj same))

/-- Every worker has answered what serving its requests one after the other comes to, given what
ledgers have answered. -/
theorem Chronicle.replays (h : Chronicle policy connector record s) (w : WorkerId) :
    s.bare.Replays w (answersTo record w) := by
  induction h with
  | start =>
    have missing : (State.start policy connector).workers.get? w = none := Table.get?_empty w
    exact ⟨fun a inside ↦ absurd inside List.not_mem_nil, fun _ ↦ ⟨rfl, rfl⟩,
      fun y found ↦ absurd (missing.symm.trans found) (by simp)⟩
  | step before taken ih =>
    have bare := before.reachable.run (.single (.schedule (bare_bare _)))
    rw [answersTo_append]
    exact replays_step ih bare.ordered before.reachable.numbered.asked taken
  | use before next use ih =>
    refine ih.keep use.later (use.silent w).1 fun z there ↦ .inr ?_
    obtain ⟨y, found, rfl | rfl⟩ := use.of_worker there
    · exact ⟨_, found, rfl, fun _ _ ↦ id⟩
    · exact ⟨_, found, rfl, fun _ _ ↦ id⟩

end Signatory.Service.State
