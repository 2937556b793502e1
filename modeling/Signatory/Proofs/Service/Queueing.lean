import Mathlib.Data.List.Basic
import Signatory.Proofs.Service.Directory
import Signatory.Proofs.Service.Turns

/-!
# Waiting for a place

A caller that finds a mailbox full is delayed: it waits for a place, and its envelope goes in later.
The places are given out in the order in which the callers were delayed, so nobody has one, or has
used one, while another that was delayed before still waits.
-/

namespace Signatory.Service

/-- Whom the latest of some events offers to a worker. -/
def lastOffer : List Event → Option (CallerId × WorkerId)
  | .offered c w :: _ => some (c, w)
  | _ => none

/-- Of some events, the latest first, the callers whose envelopes a worker did not get as soon as
they were offered to it, the earliest first; whose envelope went into which mailbox right after
these events is given. -/
def delays (w : WorkerId) : Option (CallerId × WorkerId) → List Event → List CallerId
  | _, [] => []
  | _, .queued c v :: earlier => delays w (some (c, v)) earlier
  | next, .offered c v :: earlier =>
    delays w none earlier ++ if v = w ∧ next ≠ some (c, v) then [c] else []
  | _, _ :: earlier => delays w none earlier

/-- Of some events, the latest first, the callers whose envelopes went into the mailbox of a worker,
but not as soon as they were offered to it, the earliest first. -/
def lateEntries (w : WorkerId) : List Event → List CallerId
  | [] => []
  | .queued c v :: earlier =>
    lateEntries w earlier ++ if v = w ∧ lastOffer earlier ≠ some (c, v) then [c] else []
  | _ :: earlier => lateEntries w earlier

section Events

variable {c : CallerId} {v w : WorkerId} {earlier later : List Event}

/-- A caller whose envelope does not go in at once is delayed. -/
theorem delays_offered :
    delays w none (.offered c v :: earlier) = delays w none earlier ++ if v = w then [c] else [] := by
  simp only [delays, ne_eq, reduceCtorEq, not_false_eq_true, and_true]

/-- An envelope that goes in as soon as its caller is offered to the worker delays nobody. -/
theorem delays_at_once :
    delays w none (.queued c v :: .offered c v :: earlier) = delays w none earlier ∧
      lateEntries w (.queued c v :: .offered c v :: earlier) = lateEntries w earlier := by
  constructor
  · simp only [delays, ne_eq, not_true_eq_false, and_false, if_false, List.append_nil]
  · simp only [lateEntries, lastOffer, ne_eq, not_true_eq_false, and_false, if_false, List.append_nil]

/-- An envelope that does not go in as soon as its caller is offered to the worker goes in late. -/
theorem lateEntries_queued (apart : lastOffer earlier ≠ some (c, v)) :
    lateEntries w (.queued c v :: earlier) =
      lateEntries w earlier ++ if v = w then [c] else [] := by
  simp only [lateEntries, ne_eq, apart, not_false_eq_true, and_true]

/-- An envelope that goes in later has nothing to do with the latest offer. -/
theorem delays_of_ne (apart : lastOffer earlier ≠ some (c, v)) :
    delays w (some (c, v)) earlier = delays w none earlier := by
  cases earlier with
  | nil => rfl
  | cons event earlier =>
    cases event with
    | offered d u =>
      have other : some (c, v) ≠ some (d, u) := fun same ↦ apart same.symm
      simp only [delays, ne_eq, other, not_false_eq_true, and_true, reduceCtorEq]
    | _ => rfl

/-- Nobody is delayed, and nobody's envelope goes in late, when envelopes come back. -/
theorem delays_returns (back : ∀ event ∈ later, ∃ c, event = .handedBack c v) :
    delays w none (later ++ earlier) = delays w none earlier ∧
      lateEntries w (later ++ earlier) = lateEntries w earlier := by
  induction later with
  | nil => exact ⟨rfl, rfl⟩
  | cons event later ih =>
    obtain ⟨c, rfl⟩ := back event List.mem_cons_self
    exact ih fun event inside ↦ back event (List.mem_cons_of_mem _ inside)

/-- Nobody is offered to a worker when envelopes come back and the worker leaves. -/
theorem lastOffer_returns (back : ∀ event ∈ later, ∃ c, event = .handedBack c v) :
    lastOffer (later ++ .closed w :: earlier) = none := by
  cases later with
  | nil => rfl
  | cons event later =>
    obtain ⟨c, rfl⟩ := back event List.mem_cons_self
    rfl

end Events

/-- A mailbox gives out its places in turn, if `delayed` lists who has been delayed there and `late`
whose envelopes went in late. -/
structure Fair (delayed late : List CallerId) (m : Mailbox) : Prop where
  once : m.closed = false → delayed.Nodup
  lined : m.lined.Sublist delayed
  entered : late ⊆ delayed
  /-- Who has a place, or has used it, was delayed before all that still wait. -/
  first : ∀ b c, [b, c].Sublist delayed → c ∈ late ∨ c ∈ m.reserved → b ∉ m.waiting

/-- Of two that come once, only one is before the other. -/
theorem not_both_before {α : Type} {a b : α} {l : List α} (once : l.Nodup)
    (before : [a, b].Sublist l) (after : [b, a].Sublist l) : False := by
  induction l with
  | nil => exact absurd before (by simp)
  | cons first l ih =>
    obtain ⟨apart, once⟩ := List.nodup_cons.mp once
    rcases List.sublist_cons_iff.mp before with before | ⟨rest, same, later⟩
    · rcases List.sublist_cons_iff.mp after with after | ⟨rest, same, -⟩
      · exact ih once before after
      · have here : first ∈ l := (List.cons.inj same).1 ▸
          before.subset (List.mem_cons_of_mem _ List.mem_cons_self)
        exact apart here
    · obtain ⟨rfl, rfl⟩ := List.cons.inj same
      rcases List.sublist_cons_iff.mp after with after | ⟨rest, same, -⟩
      · exact apart (after.subset (List.mem_cons_of_mem _ List.mem_cons_self))
      · exact apart ((List.cons.inj same).1 ▸ later.subset List.mem_cons_self)

namespace Fair

variable {delayed late : List CallerId} {m rest : Mailbox} {c : CallerId} {e : Envelope}

/-- A mailbox that nobody has used gives out its places in turn. -/
theorem unused (capacity : Nat) : Fair [] [] { capacity } where
  once := fun _ ↦ List.nodup_nil
  lined := List.Sublist.refl _
  entered := List.Subset.refl _
  first := fun _ _ _ _ ↦ List.not_mem_nil

/-- A mailbox gives out no more places once it is closed. -/
theorem of_closed (entered : late ⊆ delayed) (closed : m.closed = true) (empty : m.lined = []) :
    Fair delayed late m where
  once := fun opened ↦ absurd (closed.symm.trans opened) (by simp)
  lined := by
    rw [empty]
    exact List.nil_sublist _
  entered := entered
  first := by
    intro b c _ _ waits
    rw [(List.append_eq_nil_iff.mp empty).2] at waits
    exact absurd waits List.not_mem_nil

/-- A mailbox in which fewer wait and fewer have places is fair as well. -/
theorem fewer (h : Fair delayed late m) {n : Mailbox} (closed : n.closed = false → m.closed = false)
    (lined : n.lined.Sublist m.lined) (reserved : n.reserved ⊆ m.reserved)
    (waiting : n.waiting ⊆ m.waiting) : Fair delayed late n where
  once := fun opened ↦ h.once (closed opened)
  lined := lined.trans h.lined
  entered := h.entered
  first := fun b c before has waits ↦
    h.first b c before (has.imp_right fun place ↦ reserved place) (waiting waits)

/-- A place is reserved for whoever has waited longest. -/
theorem grant (h : Fair delayed late m) (opened : m.closed = false) :
    Fair delayed late m.grant.2 where
  once := fun _ ↦ h.once opened
  lined := by
    rw [Mailbox.grant_lined]
    exact h.lined
  entered := h.entered
  first := by
    intro b c before has waits
    have waited : b ∈ m.waiting := Mailbox.grant_waiting.subset waits
    rcases has with entered | place
    · exact h.first b c before (.inl entered) waited
    · rcases Mailbox.reserved_before_grant place with granted | place
      · have once := h.once opened
        have lined := h.lined
        rw [← Mailbox.grant_lined] at lined
        -- Who has just got a place is in line before all that still wait.
        have after : [c, b].Sublist delayed :=
          ((List.singleton_sublist.mpr place).append (List.singleton_sublist.mpr waits)).trans lined
        exact not_both_before once before after
      · exact h.first b c before (.inr place) waited

/-- Taking out an envelope leaves the line as it is. -/
theorem take (h : Fair delayed late m) (opened : m.closed = false)
    (popped : m.pop? = some (e, rest)) : Fair delayed late rest.grant.2 := by
  have left := (Mailbox.pop?_eq_some.mp popped).2
  have still : rest.closed = false := (Mailbox.closed_of_pop? popped).trans opened
  refine Fair.grant (h.fewer (fun _ ↦ opened) ?_ ?_ ?_) still
  · rw [Mailbox.lined_of_pop? popped]
  · rw [left]
    exact List.Subset.refl _
  · rw [left]
    exact List.Subset.refl _

/-- A caller may give up. -/
theorem withdraw (h : Fair delayed late m) (opened : m.closed = false) (c : CallerId) :
    Fair delayed late (m.withdraw c).grant.2 := by
  refine Fair.grant (h.fewer id ?_ ?_ ?_) opened
  · exact List.Sublist.append List.erase_sublist List.erase_sublist
  · exact List.erase_subset
  · exact List.erase_subset

/-- A caller that has not been delayed before may be. -/
theorem suspend (h : Fair delayed late m) (opened : m.closed = false) (new : c ∉ delayed) :
    Fair (delayed ++ [c]) late (m.suspend c) where
  once := fun _ ↦ by
    refine List.nodup_append.mpr ⟨h.once opened, List.pairwise_singleton _ c, ?_⟩
    rintro b inside d last rfl
    exact new (List.mem_singleton.mp last ▸ inside)
  lined := by
    have line : (m.suspend c).lined = m.lined ++ [c] := by simp [Mailbox.lined, Mailbox.suspend]
    rw [line]
    exact h.lined.append (List.Sublist.refl _)
  entered := fun d entered ↦ List.mem_append_left _ (h.entered entered)
  first := by
    intro b d before has waits
    have old : d ∈ delayed := by
      rcases has with entered | place
      · exact h.entered entered
      · exact h.lined.subset (List.mem_append_left _ place)
    have apart : d ∉ [c] := fun same ↦ new (List.mem_singleton.mp same ▸ old)
    have before : [b, d].Sublist delayed := State.before_of_append before apart
    rcases List.mem_append.mp waits with waits | last
    · exact h.first b d before has waits
    · have inside := before.subset List.mem_cons_self
      exact new (List.mem_singleton.mp last ▸ inside)

/-- A caller may use the place that is reserved for it. -/
theorem occupy (h : Fair delayed late m) (place : e.caller ∈ m.reserved) :
    Fair delayed (late ++ [e.caller]) (m.occupy e) where
  once := h.once
  lined := (List.erase_sublist.append (List.Sublist.refl _)).trans h.lined
  entered := by
    intro d entered
    rcases List.mem_append.mp entered with before | now
    · exact h.entered before
    · obtain rfl := List.mem_singleton.mp now
      exact h.lined.subset (List.mem_append_left _ place)
  first := by
    intro b d before has waits
    refine h.first b d before ?_ waits
    rcases has with entered | place'
    · rcases List.mem_append.mp entered with before | now
      · exact .inl before
      · exact .inr (List.mem_singleton.mp now ▸ place)
    · exact .inr (List.mem_of_mem_erase place')

end Fair

/-- Whether a caller that has been offered to a worker will not be offered to it again unless the
worker has closed its mailbox. -/
def Phase.IsWith (w : WorkerId) : Phase → Prop
  | .suspended v | .awaiting v | .replied v (.answered _) | .replied v .lost => v = w
  | .ended _ => True
  | .fresh | .seeking | .replied _ .handedBack => False

namespace State

variable {s t : State} {τ : Task} {w v : WorkerId} {y z : Worker} {c d : CallerId} {x : Caller}

/-- The callers whose envelopes a worker did not get as soon as they were offered to it, the
earliest first: they were suspended, or they found the mailbox closed. -/
def delayed (s : State) (w : WorkerId) : List CallerId :=
  delays w none s.events

/-- The callers that were suspended on the mailbox of a worker before their envelopes went in, in
the order in which the envelopes went in. -/
def late (s : State) (w : WorkerId) : List CallerId :=
  lateEntries w s.events

/-- A caller that will not be offered to a worker again, or will find its mailbox closed. -/
def Visited (s : State) (w : WorkerId) (c : CallerId) : Prop :=
  (∃ y, s.workers.get? w = some y ∧ y.mailbox.closed = true) ∨
    ∃ x, s.callers.get? c = some x ∧ x.phase.IsWith w

/-- Whoever has visited a worker will not find it again, whatever happens. -/
theorem Change.visited (owned : Owned s.workers s.callers) (h : s.Visited w c)
    (change : Change s τ t) : t.Visited w c := by
  have after : Owned t.workers t.callers := change.owned owned
  have shuts {y : Worker} (found : s.workers.get? w = some y) (closed : y.mailbox.closed = true) :
      t.Visited w c := by
    obtain ⟨z, there, later⟩ := change.later.workers w y found
    exact .inl ⟨z, there, later.closed closed⟩
  rcases h with ⟨y, found, closed⟩ | ⟨old, known, stays⟩
  · exact shuts found closed
  · obtain ⟨x, there, -⟩ := change.later.callers c old known
    rcases change.caller there with same | ⟨old', known', moves⟩
    · obtain rfl := Option.some.inj (known.symm.trans same)
      exact .inr ⟨_, there, stays⟩
    · obtain rfl := Option.some.inj (known.symm.trans known')
      cases moves with
      | begin fresh =>
        rw [fresh] at stays
        exact stays.elim
      | retry cause =>
        cases cause with
        | refused seeking =>
          rw [seeking] at stays
          exact stays.elim
        | turnedAway suspended shut =>
          rw [suspended] at stays
          obtain rfl : _ = w := stays
          obtain ⟨y, found⟩ := owned.present known (by rw [suspended]; rfl)
          exact shuts found (closed_of_isClosed shut y found)
        | handedBack replied =>
          rw [replied] at stays
          exact stays.elim
      | line offers =>
        rw [offers.seeking] at stays
        exact stays.elim
      | enqueue target =>
        rcases target with offers | suspended
        · rw [offers.seeking] at stays
          exact stays.elim
        · rw [suspended] at stays
          exact .inr ⟨_, there, stays⟩
      | reply waits replies =>
        rw [waits] at stays
        cases replies with
        | answered | lost => exact .inr ⟨_, there, stays⟩
        | handedBack found left =>
          obtain rfl : _ = w := stays
          refine .inl ⟨_, found, ?_⟩
          rw [after.shut found, left]
          rfl
      | finish => exact .inr ⟨_, there, trivial⟩
      | limit => exact .inr ⟨_, there, stays⟩

/-- The places in the mailboxes have been given out in turn. -/
structure Queued (s : State) : Prop extends Ordered s where
  /-- Nobody who has just been offered to a worker has a place. -/
  recent : ∀ {c w y}, lastOffer s.events = some (c, w) → s.workers.get? w = some y →
    c ∉ y.mailbox.reserved
  unused : ∀ w, s.workers.get? w = none → s.delayed w = [] ∧ s.late w = []
  visited : ∀ w, ∀ c ∈ s.delayed w, s.Visited w c
  fair : ∀ w y, s.workers.get? w = some y → Fair (s.delayed w) (s.late w) y.mailbox

/-- Who looks for a worker has no place reserved. -/
theorem placeless_of_seeking (owned : Owned s.workers s.callers) (known : s.callers.get? c = some x)
    (seeking : x.phase = .seeking) (found : s.workers.get? w = some y) :
    c ∉ y.mailbox.reserved := by
  intro place
  obtain ⟨-, x', known', suspended⟩ :=
    suspended_of_lined owned found (List.mem_append_left _ place)
  obtain rfl := Option.some.inj (known.symm.trans known')
  exact Phase.noConfusion (seeking.symm.trans suspended)

/-- Nobody who has just been offered to a worker has a place, after every change. -/
theorem Change.recent (h : s.Queued) (change : Change s τ t)
    (latest : lastOffer t.events = some (c, w)) (there : t.workers.get? w = some z) :
    c ∉ z.mailbox.reserved := by
  have nobody (latest : (none : Option (CallerId × WorkerId)) = some (c, w)) :
      c ∉ z.mailbox.reserved := absurd latest (by simp)
  have offered {d : CallerId} {v : WorkerId} {x : Caller} {y : Worker}
      (same : some (d, v) = some (c, w))
      (offers : Offers s d x v) (found : s.workers.get? w = some y) : c ∉ y.mailbox.reserved := by
    obtain ⟨rfl, rfl⟩ := Prod.mk.inj (Option.some.inj same)
    exact placeless_of_seeking h.owned offers.found offers.seeking found
  cases change with
  | rest => exact h.recent latest there
  | leave =>
    rw [State.events, List.map_append] at latest
    exact absurd ((lastOffer_returns (returned _ _ _ _)).symm.trans latest) (by simp)
  | again found =>
    rcases Table.of_set found there with ⟨rfl, rfl⟩ | ⟨-, there⟩
    · have placeless := h.recent latest found
      exact placeless
    · exact h.recent latest there
  | suspend offers found =>
    rcases Table.of_set found there with ⟨rfl, rfl⟩ | ⟨-, there⟩
    · have placeless := offered latest offers found
      exact placeless
    · exact offered latest offers there
  | refuse offers => exact offered latest offers there
  | beginDirect => exact h.recent latest there
  | turnAway => exact h.recent latest there
  | retry => exact h.recent latest there
  | limit => exact h.recent latest there
  | _ => exact nobody latest

/-- The places stay in turn when one worker changes, some callers are delayed there, and the
envelopes of some go in late. -/
theorem Queued.set (h : s.Queued) (change : Change s τ t) (more entered : List CallerId)
    (found : s.workers.get? v = some y)
    (workers : t.workers = s.workers.set v z)
    (delayed : ∀ w, t.delayed w = s.delayed w ++ if v = w then more else [])
    (late : ∀ w, t.late w = s.late w ++ if v = w then entered else [])
    (visited : ∀ c ∈ more, t.Visited v c)
    (fair : Fair (s.delayed v ++ more) (s.late v ++ entered) z.mailbox) : t.Queued where
  toOrdered := change.ordered h.toOrdered
  recent := change.recent h
  unused := by
    intro w missing
    rw [workers, Table.get?_set found] at missing
    split at missing
    next => exact absurd missing (by simp)
    next here =>
      rw [delayed, late, if_neg here, if_neg here, List.append_nil, List.append_nil]
      exact h.unused w missing
  visited := by
    intro w c inside
    rw [delayed] at inside
    rcases List.mem_append.mp inside with before | new
    · exact change.visited h.owned (h.visited w c before)
    · split at new
      next here => exact here ▸ visited c new
      next => exact absurd new List.not_mem_nil
  fair := by
    intro w x there
    rw [workers] at there
    rcases Table.of_set found there with ⟨rfl, rfl⟩ | ⟨here, there⟩
    · rw [delayed, late, if_pos rfl, if_pos rfl]
      exact fair
    · rw [delayed, late, if_neg here, if_neg here, List.append_nil, List.append_nil]
      exact h.fair w x there

/-- The places stay in turn when the mailboxes are left alone. -/
theorem Queued.same (h : s.Queued) (change : Change s τ t) (workers : t.workers = s.workers)
    (delayed : ∀ w, t.delayed w = s.delayed w) (late : ∀ w, t.late w = s.late w) : t.Queued where
  toOrdered := change.ordered h.toOrdered
  recent := change.recent h
  unused := by
    intro w missing
    rw [delayed, late]
    exact h.unused w (workers ▸ missing)
  visited := by
    intro w c inside
    rw [delayed] at inside
    exact change.visited h.owned (h.visited w c inside)
  fair := by
    intro w x there
    rw [delayed, late]
    exact h.fair w x (workers ▸ there)

/-- Nobody is in line at a mailbox that is closed. -/
theorem lined_of_closed (owned : Owned s.workers s.callers) (found : s.workers.get? w = some y)
    (closed : y.mailbox.closed = true) : y.mailbox.lined = [] := by
  apply List.eq_nil_iff_forall_not_mem.mpr
  intro c inside
  have opened := (suspended_of_lined owned found inside).1
  exact absurd (closed.symm.trans opened) (by simp)

/-- The places stay in turn when one worker changes while nobody is delayed or goes in late. -/
theorem Queued.keep (h : s.Queued) (change : Change s τ t) (found : s.workers.get? v = some y)
    (workers : t.workers = s.workers.set v z) (delayed : ∀ w, t.delayed w = s.delayed w)
    (late : ∀ w, t.late w = s.late w)
    (fair : Fair (s.delayed v) (s.late v) y.mailbox → Fair (s.delayed v) (s.late v) z.mailbox) :
    t.Queued := by
  refine h.set change [] [] found workers ?_ ?_ (fun _ ↦ (absurd · List.not_mem_nil)) ?_
  · exact fun w ↦ (delayed w).trans (no_more _ _)
  · exact fun w ↦ (late w).trans (no_more _ _)
  · rw [List.append_nil, List.append_nil]
    exact fair (h.fair v y found)

/-- The places stay in turn when a worker takes an envelope out. -/
theorem Queued.take {e : Envelope} {rest : Mailbox} (h : s.Queued) (change : Change s τ t)
    (takes : Takes s v y e rest) (workers : t.workers = s.workers.set v z)
    (mailbox : z.mailbox = rest.grant.2) (delayed : ∀ w, t.delayed w = s.delayed w)
    (late : ∀ w, t.late w = s.late w) : t.Queued := by
  refine h.keep change takes.found workers delayed late fun fair ↦ ?_
  exact mailbox ▸ fair.take (takes.opened h.owned) takes.popped

/-- The places stay in turn when a worker closes its mailbox. -/
theorem Queued.close {m : Mailbox} (h : s.Queued) (change : Change s τ t)
    (found : s.workers.get? v = some y) (workers : t.workers = s.workers.set v z)
    (mailbox : z.mailbox = m.close) (delayed : ∀ w, t.delayed w = s.delayed w)
    (late : ∀ w, t.late w = s.late w) : t.Queued := by
  refine h.keep change found workers delayed late fun fair ↦ .of_closed fair.entered ?_ ?_
  · rw [mailbox]
    rfl
  · rw [mailbox]
    rfl

/-- The places stay in turn when a worker is started. -/
theorem Queued.push {capacity : Nat} (h : s.Queued) (change : Change s τ t)
    (workers : t.workers = s.workers.push z) (mailbox : z.mailbox = { capacity })
    (delayed : ∀ w, t.delayed w = s.delayed w) (late : ∀ w, t.late w = s.late w) : t.Queued where
  toOrdered := change.ordered h.toOrdered
  recent := change.recent h
  unused := by
    intro w missing
    rw [workers, Table.get?_push] at missing
    split at missing
    next => exact absurd missing (by simp)
    next =>
      rw [delayed, late]
      exact h.unused w missing
  visited := by
    intro w c inside
    rw [delayed] at inside
    exact change.visited h.owned (h.visited w c inside)
  fair := by
    intro w x there
    rw [delayed, late]
    rw [workers] at there
    rcases Table.of_push there with ⟨-, rfl, missing⟩ | there
    · rw [(h.unused w missing).1, (h.unused w missing).2, mailbox]
      exact .unused capacity
    · exact h.fair w x there

/-- A caller that is offered to a worker has not been delayed there, unless the mailbox is closed. -/
theorem Queued.undelayed (h : s.Queued) (offers : Offers s c x v)
    (found : s.workers.get? v = some y) (opened : y.mailbox.closed = false) : c ∉ s.delayed v := by
  intro before
  rcases h.visited v c before with ⟨y', found', closed⟩ | ⟨x', known, stays⟩
  · obtain rfl := Option.some.inj (found.symm.trans found')
    exact absurd (closed.symm.trans opened) (by simp)
  · obtain rfl := Option.some.inj (offers.found.symm.trans known)
    rw [offers.seeking] at stays
    exact stays

/-- The places stay in turn when a caller gives up, whether or not its worker is still there. -/
theorem Queued.leave (h : s.Queued) (found : s.workers.get? w = some y) (c : CallerId) :
    Fair (s.delayed w) (s.late w) (y.mailbox.withdraw c).grant.2 := by
  have fair := h.fair w y found
  cases closed : y.mailbox.closed with
  | false => exact fair.withdraw closed c
  | true =>
    refine .of_closed fair.entered (by rw [Mailbox.grant_closed]; exact closed) ?_
    obtain ⟨reserved, waiting⟩ := List.append_eq_nil_iff.mp (lined_of_closed h.owned found closed)
    rw [Mailbox.grant_lined, Mailbox.lined_withdraw, reserved, waiting]
    rfl

/-- Every change gives out the places in turn. -/
theorem Change.queued (h : s.Queued) (change : Change s τ t) : t.Queued := by
  have step : Change s τ t := change
  cases change with
  | leave found =>
    refine h.close step found rfl rfl (fun w ↦ ?_) fun w ↦ ?_
    · rw [State.delayed, State.events, List.map_append, (delays_returns (returned _ _ _ _)).1]
      rfl
    · rw [State.late, State.events, List.map_append, (delays_returns (returned _ _ _ _)).2]
      rfl
  | die found => exact h.close step found rfl rfl (fun _ ↦ rfl) fun _ ↦ rfl
  | skip takes => exact h.take step takes rfl rfl (fun _ ↦ rfl) fun _ ↦ rfl
  | misroute takes => exact h.take step takes rfl rfl (fun _ ↦ rfl) fun _ ↦ rfl
  | connect accepts => exact h.take step accepts.toTakes rfl rfl (fun _ ↦ rfl) fun _ ↦ rfl
  | lookup accepts => exact h.take step accepts.toTakes rfl rfl (fun _ ↦ rfl) fun _ ↦ rfl
  | serve accepts => exact h.take step accepts.toTakes rfl rfl (fun _ ↦ rfl) fun _ ↦ rfl
  | finish found => exact h.keep step found rfl (fun _ ↦ rfl) (fun _ ↦ rfl) id
  | again found => exact h.keep step found rfl (fun _ ↦ rfl) (fun _ ↦ rfl) id
  | spawn => exact h.push step rfl rfl (fun _ ↦ rfl) fun _ ↦ rfl
  | push offers found =>
    refine h.keep step found rfl (fun w ↦ delays_at_once.1) (fun w ↦ delays_at_once.2) fun fair ↦ ?_
    exact fair.fewer id (List.Sublist.refl _) (List.Subset.refl _) (List.Subset.refl _)
  | @suspend c x v y offers found opened =>
    refine h.set step [c] [] found rfl (fun w ↦ delays_offered) (fun w ↦ no_more _ _) ?_ ?_
    · intro d inside
      obtain rfl := List.mem_singleton.mp inside
      exact .inr ⟨_, Table.get?_set_self offers.found, rfl⟩
    · rw [List.append_nil]
      exact (h.fair v y found).suspend opened (h.undelayed offers found opened)
  | @refuse c x v offers shut =>
    obtain ⟨y, found, -⟩ := h.filed.aims offers.found (.inl offers)
    have closed := closed_of_isClosed shut y found
    have same := Table.update_self fun x known ↦ Option.some.inj (found.symm.trans known)
    refine h.set step [c] [] found same.symm (fun w ↦ delays_offered) (fun w ↦ no_more _ _) ?_ ?_
    · intro d inside
      exact .inl ⟨y, found, closed⟩
    · rw [List.append_nil]
      have entered := (h.fair v y found).entered
      exact .of_closed (fun d inside ↦ List.mem_append_left _ (entered inside)) closed
        (lined_of_closed h.owned found closed)
  | refuseDirect offers shut direct =>
    exact absurd ((h.filed.indirect offers.found).symm.trans direct) (by simp)
  | @occupy c x v y known suspended found opened place =>
    have apart : lastOffer s.events ≠ some (c, v) := fun latest ↦ h.recent latest found place
    refine h.set step [] [c] found rfl (fun w ↦ (delays_of_ne apart).trans (no_more _ _))
      (fun w ↦ lateEntries_queued apart) (fun _ ↦ (absurd · List.not_mem_nil)) ?_
    rw [List.append_nil]
    have place : (⟨x.key, x.request, c⟩ : Envelope).caller ∈ y.mailbox.reserved := place
    exact (h.fair v y found).occupy place
  | @withdraw c x v ending known suspended =>
    obtain ⟨y, found⟩ := h.owned.present known (by rw [suspended]; rfl)
    refine h.keep step found (Table.update_eq_set found _) (fun _ ↦ rfl) (fun _ ↦ rfl) fun _ ↦ ?_
    exact h.leave found c
  | rest => exact h
  | begin => exact h.same step rfl (fun _ ↦ rfl) fun _ ↦ rfl
  | beginDirect => exact h.same step rfl (fun _ ↦ rfl) fun _ ↦ rfl
  | turnAway => exact h.same step rfl (fun _ ↦ rfl) fun _ ↦ rfl
  | retry => exact h.same step rfl (fun _ ↦ rfl) fun _ ↦ rfl
  | limit => exact h.same step rfl (fun _ ↦ rfl) fun _ ↦ rfl
  | conclude => exact h.same step rfl (fun _ ↦ rfl) fun _ ↦ rfl
  | notFound => exact h.same step rfl (fun _ ↦ rfl) fun _ ↦ rfl
  | lose => exact h.same step rfl (fun _ ↦ rfl) fun _ ↦ rfl
  | giveUp => exact h.same step rfl (fun _ ↦ rfl) fun _ ↦ rfl

/-- No use delays anyone or puts an envelope into a mailbox. -/
theorem Use.delayed_eq (use : Use s t) (w : WorkerId) :
    t.delayed w = s.delayed w ∧ t.late w = s.late w := by
  unfold delayed late
  rcases use.events_eq with same | ⟨v, more⟩ | more
  · exact ⟨by rw [same], by rw [same]⟩
  · exact ⟨by rw [more]; rfl, by rw [more]; rfl⟩
  · exact ⟨by rw [more]; rfl, by rw [more]; rfl⟩

/-- Every use leaves the places given out in turn. -/
theorem Use.queued (h : s.Queued) (use : Use s t) : t.Queued where
  toOrdered := use.ordered h.toOrdered
  recent := by
    intro c w z latest there
    obtain ⟨y, found, same⟩ := use.of_worker there
    have before : lastOffer s.events = some (c, w) := by
      rcases use.events_eq with same | ⟨v, more⟩ | more
      · exact same ▸ latest
      · rw [more] at latest
        exact absurd latest (by simp [lastOffer])
      · rw [more] at latest
        exact absurd latest (by simp [lastOffer])
    have placeless := h.recent before found
    rcases same with rfl | rfl
    · exact placeless
    · exact placeless
  unused := by
    intro w missing
    rw [(use.delayed_eq w).1, (use.delayed_eq w).2]
    refine h.unused w ?_
    cases found : s.workers.get? w with
    | none => rfl
    | some y =>
      obtain ⟨z, there, -⟩ := use.later.workers w y found
      exact absurd (missing.symm.trans there) (by simp)
  visited := by
    intro w c inside
    rw [(use.delayed_eq w).1] at inside
    rcases h.visited w c inside with ⟨y, found, closed⟩ | ⟨x, known, stays⟩
    · obtain ⟨z, there, later⟩ := use.later.workers w y found
      exact .inl ⟨z, there, later.closed closed⟩
    · obtain ⟨x', there, -⟩ := use.later.callers c x known
      refine .inr ⟨x', there, ?_⟩
      rcases use.becomes there with ⟨new, -⟩ | ⟨old, known', same⟩
      · exact absurd new (Nat.ne_of_lt (Table.lt_size known))
      · obtain rfl := Option.some.inj (known.symm.trans known')
        rcases same with rfl | rfl
        · exact stays
        · exact stays
  fair := by
    intro w z there
    rw [(use.delayed_eq w).1, (use.delayed_eq w).2]
    obtain ⟨y, found, rfl | rfl⟩ := use.of_worker there
    · exact h.fair w _ found
    · exact h.fair w y found

/-- Nobody has been delayed at the start. -/
theorem queued_start (policy : Policy) (connector : Ledger.Connector) :
    (start policy connector).Queued where
  toOrdered := ordered_start policy connector
  recent := fun latest ↦ absurd latest (by simp [start, events, lastOffer])
  unused := fun _ _ ↦ ⟨rfl, rfl⟩
  visited := fun _ _ inside ↦ absurd inside List.not_mem_nil
  fair := fun w y found ↦ by simp [start] at found

/-- The places in the mailboxes have been given out in turn, in every state that can come about. -/
theorem Reachable.queued (h : s.Reachable) : s.Queued := by
  have kept := Reachable.invariant (P := Queued) queued_start (fun h change ↦ change.queued h)
    (fun h use ↦ use.queued h) h
  exact ⟨h.ordered, kept.recent, kept.unused, kept.visited, kept.fair⟩

end State

end Signatory.Service
