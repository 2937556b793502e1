import Signatory.Proofs.Service.Acceptance
import Signatory.Proofs.Service.Mail
import Signatory.Proofs.Service.Queueing
import Signatory.Proofs.Service.Replay
import Signatory.Proofs.Service.Sessions

/-!
# A worker is as good as a clerk

Whatever goes on around a worker, it accepts the envelopes in the order in which they came into its
mailbox, leaves out those whose callers have left, and does with the requests what a clerk does who
serves one after the other. Callers that find the mailbox full are given places in turn; whose
envelope goes in first is decided by when they run.
-/

namespace Signatory.Service.State

variable {policy : Policy} {connector : Ledger.Connector} {record : List (WorkerId × Answer)}
  {s : State} {w : WorkerId} {y : Worker} {answers : List Answer} {time : Nat}

/-- The requests that a worker has answered are those of the callers whom it has answered. -/
theorem Replays.requests_eq (h : s.Replays w answers) :
    (s.served w).map some = (s.history w).map fun a ↦ (s.callers.get? a.1).map (·.request) := by
  unfold State.served
  have known := h.known
  generalize s.history w = answered at known
  induction answered with
  | nil => rfl
  | cons a answered ih =>
    obtain ⟨x, found⟩ := known a List.mem_cons_self
    rw [List.filterMap_cons, List.map_cons, found, Option.map_some]
    rw [List.map_cons, ih fun b inside ↦ known b (List.mem_cons_of_mem _ inside)]

/-- What a worker has done is what a clerk does who serves one request after the other. The worker
has taken envelopes out of its mailbox in the order in which they came in, and accepted those whose
callers had not left; it has answered what it has accepted, in the same order, but for the request
in its hand; and its answers and its identity are what the clerk comes to, who begins without an
identity and is told the same by the ledgers. What of the ledgers' answers the clerk leaves over
belongs to the request in hand. Callers that were suspended have been given their places in turn. -/
structure Serial (s : State) (w : WorkerId) (y : Worker) (answers : List Answer) : Prop where
  taken : ∃ rest, s.entries w = (s.takings w).map (·.1) ++ rest ∧
    (y.mailbox.closed = false → rest = y.mailbox.queue.map (·.caller))
  accepted : s.acceptances w = ((s.takings w).filter (·.2)).map (·.1)
  heeds : Heeds s.events
  answered : ∃ client : Option CallerId,
    s.acceptances w = (s.history w).map (·.1) ++ client.toList ∧
      (y.activity ≠ .died → client = y.activity.hand?.map (·.caller))
  requests : (s.served w).map some =
    (s.history w).map fun a ↦ (s.callers.get? a.1).map (·.request)
  worked : ∃ rest, Pending (s.clerk y) y rest ∧ (s.clerk y).work none answers (s.served w) =
    some (((s.history w).map (·.2), y.identity), rest)
  deeds : ∀ identity answers q done rest,
    (s.clerk y).serve identity answers q = some (done, rest) →
    Deed (s.clerk y) identity answers q done
  turns : Fair (s.delayed w) (s.late w) y.mailbox

/-- A worker has done what a clerk does. -/
theorem Chronicle.serial (h : Chronicle policy connector record s)
    (found : s.workers.get? w = some y) : Serial s w y (answersTo record w) where
  taken := by
    obtain ⟨rest, lined⟩ := h.reachable.mailed.lined w
    exact ⟨rest, lined.entries, lined.still y found⟩
  accepted := s.acceptances_eq w
  heeds := h.reachable.mailed.heeds
  answered := by
    obtain ⟨client, order, current⟩ := h.reachable.settles w
    refine ⟨client, order, fun alive ↦ ?_⟩
    rw [current fun z there ↦ Option.some.inj (found.symm.trans there) ▸ alive, client?, found,
      Option.bind_some]
  requests := (h.replays w).requests_eq
  worked := (h.replays w).worked y found
  deeds := fun _ _ _ _ _ served ↦ serve_deed served
  turns := h.reachable.queued.fair w y found

/-- In every run each worker has done what a clerk does, one request after the other, who is told
the same by the ledgers. What the ledgers have answered is written down in a chronicle, and every
run has one. -/
theorem Run.works_as_clerk (run : Run (start policy connector) s) :
    (∃ record, Chronicle policy connector record s) ∧
      ∀ record, Chronicle policy connector record s → ∀ w y, s.workers.get? w = some y →
        Serial s w y (answersTo record w) :=
  ⟨run.chronicle, fun _ chronicle _ _ ↦ chronicle.serial⟩

/-- A worker that has room for one envelope skips one whose caller has left while it was busy, and
then accepts the request of a caller that was suspended. -/
theorem Run.works_as_clerk_skipping :
    ∃ record s y, Chronicle { queueCapacity := 1 } trialConnector record s ∧
      s.workers.get? 0 = some y ∧ s.takings 0 = [(0, true), (1, false), (2, true)] ∧
      Serial s 0 y (answersTo record 0) := by
  have called := ((Session.start : Session { queueCapacity := 1 } trialConnector [] _).act rfl
    (.tail (.tail (.single (.spawn "treasury" (trialGenerate "slow")))
      (.spawn "treasury" trialSign)) (.spawn "treasury" trialSign))).runReady 40
  have left := (called.act rfl (.single (.drop (c := 1) (by decide)))).runReady 40
  have late := (left.jump_listed rfl (show _ = some 100 from rfl) rfl (by decide)).runReady 40
  obtain ⟨⟨record, chronicle⟩, serial⟩ := Run.works_as_clerk late.run
  exact ⟨record, _, _, chronicle, rfl, rfl, serial record chronicle 0 _ rfl⟩

/-- A worker that has room for two envelopes is busy. A caller in the foreground is suspended on its
mailbox, and after it one whose request comes back from another worker. When there is room for both
the second puts its envelope in first, because the foreground runs last. -/
theorem Session.enters_out_of_turn :
    ∃ s, Session { queueCapacity := 2 } trialConnector [5] s ∧ s.delayed 1 = [5, 1] ∧
      s.late 1 = [1, 5] ∧ s.entries 1 = [2, 3, 4, 1, 5] ∧ s.acceptances 1 = [2, 3, 4, 1, 5] := by
  have called := ((Session.start : Session { queueCapacity := 2 } trialConnector [] _).act rfl
    (.tail (.single (.spawn "treasury" (trialGenerate "slow")))
      (.spawn "treasury" trialSign))).runReady 40
  have waited := called.wait rfl (show 0 ≤ 50 by decide) (by rintro next ⟨⟩; decide)
  have renewed := (waited.act rfl (.tail (.single (.remove "treasury"))
    (.spawn "treasury" (trialGenerate "slow")))).runReady 40
  have full := (renewed.act rfl (.tail (.single (.spawn "treasury" trialSign))
    (.spawn "treasury" trialSign))).runReady 40
  have waits := (full.call rfl .refl rfl "treasury" trialSign).runReady 40
  have back := (waits.jump_behind rfl (show _ = some 100 from rfl) (by decide) rfl).runReady 40
  have room := (back.jump_behind rfl (show _ = some 150 from rfl) (by decide) rfl).runReady 60
  exact ⟨_, room, rfl, rfl, rfl, rfl⟩

end Signatory.Service.State
