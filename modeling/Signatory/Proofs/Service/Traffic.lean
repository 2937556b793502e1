import Signatory.Proofs.Service.Answers
import Signatory.Proofs.Service.Execution

/-!
# What a change does to one mailbox

The requests on their way through a worker form one line: those that it has accepted, those in its
mailbox, and those that wait for a place there. A change adds a request at the end of the line,
takes one out of it, or moves one on.
-/

namespace Signatory.Service.State

variable {s t : State} {τ : Task} {w v : WorkerId} {worker y z : Worker} {c d : CallerId}
  {x : Caller} {m : Mailbox} {accepted : List CallerId}

/-- What can become of the mailbox of a worker, and whose requests the worker accepts meanwhile. -/
inductive Delivers (s : State) (τ : Task) (w : WorkerId) (y : Worker) :
    Mailbox → List CallerId → Prop
  | same : Delivers s τ w y y.mailbox []
  | close (m : Mailbox) (actor : τ = .worker w) : Delivers s τ w y m.close []
  | take {e : Envelope} {rest : Mailbox} {accepted : List CallerId} (actor : τ = .worker w)
    (kept : y.cancelled = false) (popped : y.mailbox.pop? = some (e, rest))
    (served : accepted = [] ∨ accepted = [e.caller]) : Delivers s τ w y rest.grant.2 accepted
  | push {c : CallerId} {x : Caller} (actor : τ = .caller c) (offers : Offers s c x w)
    (opened : y.mailbox.closed = false) (room : 0 < y.mailbox.free) :
    Delivers s τ w y (y.mailbox.push ⟨x.key, x.request, c⟩) []
  | suspend {c : CallerId} {x : Caller} (actor : τ = .caller c) (offers : Offers s c x w)
    (opened : y.mailbox.closed = false) (full : y.mailbox.free = 0) :
    Delivers s τ w y (y.mailbox.suspend c) []
  | occupy {c : CallerId} {x : Caller} (actor : τ = .caller c)
    (known : s.callers.get? c = some x) (suspended : x.phase = .suspended w)
    (place : c ∈ y.mailbox.reserved) :
    Delivers s τ w y (y.mailbox.occupy ⟨x.key, x.request, c⟩) []
  | withdraw {c : CallerId} {x : Caller} (actor : τ = .caller c)
    (known : s.callers.get? c = some x) (suspended : x.phase = .suspended w) :
    Delivers s τ w y (y.mailbox.withdraw c).grant.2 []

/-- What a change does to a worker: it creates it, or something becomes of its mailbox. -/
inductive Trades (s : State) (τ : Task) (t : State) (w : WorkerId) (z : Worker) : Prop
  | new (missing : s.workers.get? w = none) (capacity : Nat) (mailbox : z.mailbox = { capacity })
    (acceptances : t.acceptances w = s.acceptances w) (room : 0 < capacity)
  | old {y : Worker} {accepted : List CallerId} (found : s.workers.get? w = some y)
    (delivers : Delivers s τ w y z.mailbox accepted)
    (acceptances : t.acceptances w = s.acceptances w ++ accepted)

/-- A worker that keeps its mailbox. -/
theorem trades_of_same (found : s.workers.get? w = some y) (mailbox : z.mailbox = y.mailbox)
    (acceptances : t.acceptances w = s.acceptances w) : Trades s τ t w z :=
  .old found (mailbox ▸ .same) (acceptances.trans (List.append_nil _).symm)

/-- What becomes of the mailboxes when one worker changes. -/
theorem trades_of_set (found : s.workers.get? v = some y)
    (delivers : Delivers s τ v y z.mailbox accepted)
    (here : (s.workers.set v z).get? w = some worker)
    (acceptances : t.acceptances w = s.acceptances w ++ if v = w then accepted else []) :
    Trades s τ t w worker := by
  rcases Table.of_set found here with ⟨rfl, rfl⟩ | ⟨apart, here⟩
  · rw [if_pos rfl] at acceptances
    exact .old found delivers acceptances
  · rw [if_neg apart] at acceptances
    exact trades_of_same here rfl (acceptances.trans (List.append_nil _))

/-- A worker accepts no request unless it is recorded. -/
theorem acceptances_leave (time : Nat) (v : WorkerId) (es : List Envelope)
    (callers : Table Caller) (later : List Event) (w : WorkerId) :
    ((((returns time v es callers).map (·.event)) ++ later).filterMap
      (Event.acceptance? w)).reverse = (later.filterMap (Event.acceptance? w)).reverse := by
  rw [List.filterMap_append, acceptance?_returns, List.nil_append]

/-- What a change does to the mailbox of one worker. -/
theorem Change.trades (change : Change s τ t) (here : t.workers.get? w = some z) :
    Trades s τ t w z := by
  cases change with
  | leave found =>
    refine trades_of_set found (.close _ rfl) here ?_
    rw [← no_more, acceptances, events, List.map_append, acceptances_leave]
    rfl
  | die found => exact trades_of_set found (.close _ rfl) here (no_more _ _)
  | skip takes =>
    exact trades_of_set takes.found (.take rfl takes.kept takes.popped (.inl rfl)) here (no_more _ _)
  | misroute takes =>
    exact trades_of_set takes.found (.take rfl takes.kept takes.popped (.inl rfl)) here (no_more _ _)
  | connect accepts =>
    exact trades_of_set accepts.found (.take rfl accepts.kept accepts.popped (.inr rfl)) here
      acceptances_accepted
  | lookup accepts =>
    exact trades_of_set accepts.found (.take rfl accepts.kept accepts.popped (.inr rfl)) here
      acceptances_accepted
  | serve accepts =>
    exact trades_of_set accepts.found (.take rfl accepts.kept accepts.popped (.inr rfl)) here
      acceptances_accepted
  | finish found => exact trades_of_set found (by exact .same) here (no_more _ _)
  | again found => exact trades_of_set found (by exact .same) here (no_more _ _)
  | spawn =>
    rcases Table.of_push here with ⟨-, rfl, missing⟩ | here
    · have room : 0 < max s.policy.queueCapacity 1 :=
        Nat.lt_of_lt_of_le Nat.zero_lt_one (Nat.le_max_right _ _)
      exact .new missing _ rfl rfl room
    · exact trades_of_same here rfl rfl
  | push offers found opened room =>
    exact trades_of_set found (.push rfl offers opened room) here (no_more _ _)
  | suspend offers found opened full =>
    exact trades_of_set found (.suspend rfl offers opened full) here (no_more _ _)
  | occupy known suspended found opened place =>
    exact trades_of_set found (.occupy rfl known suspended place) here (no_more _ _)
  | @withdraw c x v ending known suspended =>
    have here : (s.workers.update v fun y ↦
        { y with mailbox := (y.mailbox.withdraw c).grant.2 }).get? w = some z := here
    cases there : s.workers.get? v with
    | none =>
      rw [Table.update_self fun y found ↦ absurd (there.symm.trans found) (by simp)] at here
      exact trades_of_same here rfl rfl
    | some y =>
      rw [Table.update_eq_set there] at here
      exact trades_of_set there (.withdraw rfl known suspended) here (no_more _ _)
  | _ => exact trades_of_same here rfl rfl

/-- A place is reserved for the one who has waited longest, if for anyone. -/
theorem reserved_of_grant (h : c ∈ m.grant.2.reserved) :
    c ∈ m.reserved ∨ ∃ rest, m.waiting = c :: rest := by
  unfold Mailbox.grant at h
  split at h
  next first rest waiting =>
    split at h
    next =>
      rcases List.mem_append.mp h with old | new
      · exact .inl old
      · obtain rfl := List.mem_singleton.mp new
        exact .inr ⟨rest, waiting⟩
    next => exact .inl h
  next => exact .inl h

/-- A place that is reserved stays reserved. -/
theorem reserved_grant (h : c ∈ m.reserved) : c ∈ m.grant.2.reserved := by
  unfold Mailbox.grant
  split
  next =>
    split
    next => exact List.mem_append_left _ h
    next => exact h
  next => exact h

/-- Who is in line after a change was before, or has just come and is not ahead of anyone. -/
theorem Delivers.lined (delivers : Delivers s τ w y m accepted) (inside : c ∈ m.lined) :
    c ∈ y.mailbox.lined ∨ τ = .caller c ∧ ∃ x, Offers s c x w := by
  cases delivers with
  | same => exact .inl inside
  | close => exact absurd inside List.not_mem_nil
  | take actor kept popped =>
    rw [Mailbox.grant_lined, Mailbox.lined_of_pop? popped] at inside
    exact .inl inside
  | push => exact .inl inside
  | @suspend d x actor offers =>
    have inside : c ∈ y.mailbox.reserved ++ (y.mailbox.waiting ++ [d]) := inside
    rw [← List.append_assoc] at inside
    rcases List.mem_append.mp inside with old | new
    · exact .inl old
    · obtain rfl := List.mem_singleton.mp new
      exact .inr ⟨actor, x, offers⟩
  | occupy =>
    rcases List.mem_append.mp inside with reserved | waiting
    · exact .inl (List.mem_append_left _ (List.mem_of_mem_erase reserved))
    · exact .inl (List.mem_append_right _ waiting)
  | withdraw =>
    rw [Mailbox.grant_lined, Mailbox.lined_withdraw] at inside
    rcases List.mem_append.mp inside with reserved | waiting
    · exact .inl (List.mem_append_left _ (List.mem_of_mem_erase reserved))
    · exact .inl (List.mem_append_right _ (List.mem_of_mem_erase waiting))

/-- A place that is reserved for a caller stays so until that caller moves, while the mailbox is
open. -/
theorem Delivers.reserved (delivers : Delivers s τ w y m accepted) (other : τ ≠ .caller c)
    (place : c ∈ y.mailbox.reserved) (inside : c ∈ m.lined) : c ∈ m.reserved := by
  cases delivers with
  | same => exact place
  | close => exact absurd inside List.not_mem_nil
  | take actor kept popped =>
    apply reserved_grant
    rw [(Mailbox.pop?_eq_some.mp popped).2]
    exact place
  | push => exact place
  | suspend => exact place
  | @occupy d x actor =>
    have apart : c ≠ d := fun same ↦ other (same ▸ actor)
    exact (List.mem_erase_of_ne apart).mpr place
  | @withdraw d x actor =>
    have apart : c ≠ d := fun same ↦ other (same ▸ actor)
    exact reserved_grant ((List.mem_erase_of_ne apart).mpr place)

/-- A place is reserved for a caller only when the others who wait come after that caller. -/
theorem Delivers.granted (delivers : Delivers s τ w y m accepted) (place : c ∈ m.reserved)
    (new : c ∉ y.mailbox.reserved) (waits : d ∈ y.mailbox.waiting) (apart : d ≠ c)
    (other : τ ≠ .caller d) : [c, d].Sublist y.mailbox.waiting := by
  have after {rest : List CallerId} (inside : d ∈ c :: rest) : [c, d].Sublist (c :: rest) :=
    List.Sublist.cons_cons c
      (List.singleton_sublist.mpr ((List.mem_cons.mp inside).resolve_left apart))
  cases delivers with
  | same => exact absurd place new
  | close => exact absurd place List.not_mem_nil
  | take actor kept popped =>
    have rest := (Mailbox.pop?_eq_some.mp popped).2
    rcases reserved_of_grant place with old | ⟨others, waiting⟩
    · rw [rest] at old
      exact absurd old new
    · rw [rest] at waiting
      have waiting : y.mailbox.waiting = c :: others := waiting
      rw [waiting] at waits ⊢
      exact after waits
  | push => exact absurd place new
  | suspend => exact absurd place new
  | occupy => exact absurd (List.mem_of_mem_erase place) new
  | @withdraw e x actor =>
    rcases reserved_of_grant place with old | ⟨others, waiting⟩
    · exact absurd (List.mem_of_mem_erase old) new
    · have waiting : y.mailbox.waiting.erase e = c :: others := waiting
      have stays : d ∈ y.mailbox.waiting.erase e := by
        apply (List.mem_erase_of_ne _).mpr waits
        exact fun same ↦ other (actor.trans (congrArg Task.caller same.symm))
      have erased : (y.mailbox.waiting.erase e).Sublist y.mailbox.waiting := List.erase_sublist
      rw [waiting] at stays erased
      exact (after stays).trans erased

/-- A place can only be reserved by a caller who leaves, or by a worker that takes an envelope. -/
theorem Delivers.unreserved (delivers : Delivers s τ w y m accepted) (sound : y.mailbox.Sound)
    (none : y.mailbox.reserved = []) : m.reserved = [] ∨ τ = .worker w ∧ y.cancelled = false := by
  cases delivers with
  | same => exact .inl none
  | close => exact .inl rfl
  | take actor kept => exact .inr ⟨actor, kept⟩
  | push => exact .inl none
  | suspend => exact .inl none
  | occupy => exact .inl (by simp [Mailbox.occupy, none])
  | @withdraw e x =>
    left
    unfold Mailbox.grant
    split
    next first others waiting =>
      -- Whoever waits does so because no place is free, and nobody gives one up here.
      have waits : y.mailbox.waiting ≠ [] := by
        intro nobody
        rw [Mailbox.withdraw, nobody] at waiting
        exact absurd waiting (by simp)
      have full := sound.2 waits
      have still : (y.mailbox.withdraw e).free = 0 := by
        simpa [Mailbox.free, Mailbox.withdraw, none] using full
      rw [if_neg (by omega)]
      simp [Mailbox.withdraw, none]
    next => simp [Mailbox.withdraw, none]

/-- Every mailbox stays sound. -/
theorem Delivers.sound (delivers : Delivers s τ w y m accepted) (sound : y.mailbox.Sound) :
    m.Sound := by
  cases delivers with
  | same => exact sound
  | close m => exact .close m
  | take actor kept popped => exact sound.grant_pop popped
  | push actor offers opened room => exact sound.push _ room
  | suspend actor offers opened full => exact sound.suspend _ full
  | occupy actor known suspended place => exact sound.occupy _ place
  | withdraw => exact sound.grant_withdraw _

section Lines

variable {line front before rest : List CallerId} {p : CallerId → Bool}

/-- Whoever comes last has the greatest number. -/
theorem sorted_concat (sorted : (line.filter p).Pairwise (· < ·))
    (less : p c → ∀ b ∈ line, p b → b < c) : ((line ++ [c]).filter p).Pairwise (· < ·) := by
  rw [List.filter_append]
  refine List.pairwise_append.mpr ⟨sorted, ?_, fun b before d last ↦ ?_⟩
  · exact (List.pairwise_singleton _ _).sublist List.filter_sublist
  · obtain ⟨here, counts⟩ := List.mem_filter.mp last
    obtain rfl := List.mem_singleton.mp here
    exact less counts b (List.mem_filter.mp before).1 (List.mem_filter.mp before).2

/-- Whoever moves ahead of some who do not count, or who have greater numbers, leaves a line that
is in order as it is. -/
theorem filter_advance (sorted : ((front ++ (before ++ c :: rest)).filter p).Pairwise (· < ·))
    (least : p c → ∀ b ∈ before, p b → c ≤ b) :
    (front ++ c :: (before ++ rest)).filter p = (front ++ (before ++ c :: rest)).filter p := by
  simp only [List.filter_append, List.filter_cons] at sorted ⊢
  split at sorted
  next counts =>
    have none : before.filter p = [] := by
      apply List.filter_eq_nil_iff.mpr
      intro b inside both
      have later := (List.pairwise_append.mp (List.pairwise_append.mp sorted).2.1).2.2
      have less := later b (List.mem_filter.mpr ⟨inside, both⟩) c List.mem_cons_self
      exact absurd less (Nat.not_lt.mpr (least counts b inside both))
    rw [if_pos counts, if_pos counts, none]
    rfl
  next counts => rw [if_neg counts, if_neg counts]

end Lines

/-- A line in which some callers come in the order of their numbers stays so when a change moves it
on. The one who comes last has the greatest number, and the one who moves from the line into the
mailbox is the first for whom a place is reserved. -/
theorem Delivers.line (delivers : Delivers s τ w y m accepted) (sound : y.mailbox.Sound)
    (p : CallerId → Bool) {past : List CallerId}
    (sorted : ((past ++ y.mailbox.callers).filter p).Pairwise (· < ·))
    (last : ∀ c x, τ = .caller c → Offers s c x w → p c →
      y.mailbox.reserved = [] ∧ ∀ e ∈ past ++ y.mailbox.callers, p e → e < c)
    (first : ∀ c, τ = .caller c → c ∈ y.mailbox.reserved → p c →
      ∀ b ∈ y.mailbox.reserved, p b → c ≤ b) :
    ((past ++ accepted ++ m.callers).filter p).Pairwise (· < ·) := by
  have shorter {later : List CallerId} (sub : later.Sublist (past ++ y.mailbox.callers)) :
      (later.filter p).Pairwise (· < ·) := sorted.sublist (sub.filter p)
  cases delivers with
  | same =>
    rw [List.append_nil]
    exact sorted
  | close =>
    apply shorter
    rw [List.append_nil]
    exact (List.Sublist.refl past).append (List.nil_sublist _)
  | take actor kept popped served =>
    apply shorter
    rw [Mailbox.callers_of_pop? popped, List.append_assoc]
    apply (List.Sublist.refl past).append
    rcases served with rfl | rfl
    · exact List.sublist_cons_self _ _
    · exact List.Sublist.refl _
  | @push c x actor offers opened room =>
    rw [List.append_nil]
    by_cases counts : p c = true
    · obtain ⟨unreserved, less⟩ := last c x actor offers counts
      have nobody : y.mailbox.waiting = [] := by
        apply Classical.byContradiction
        intro waits
        have full := sound.2 waits
        omega
      have none : y.mailbox.lined = [] := List.append_eq_nil_iff.mpr ⟨unreserved, nobody⟩
      rw [Mailbox.callers_push none, ← List.append_assoc]
      exact sorted_concat sorted fun _ ↦ less
    · have line : (past ++ (y.mailbox.push ⟨x.key, x.request, c⟩).callers).filter p =
          (past ++ y.mailbox.callers).filter p := by
        simp [Mailbox.callers, Mailbox.push, Mailbox.lined, List.filter_append, counts]
      rw [line]
      exact sorted
  | @suspend c x actor offers =>
    rw [List.append_nil, Mailbox.callers_suspend, ← List.append_assoc]
    exact sorted_concat sorted fun counts ↦ (last c x actor offers counts).2
  | @occupy c x actor known suspended place =>
    obtain ⟨before, after, -, reserved, erased⟩ := List.exists_erase_eq place
    have old : past ++ y.mailbox.callers =
        (past ++ y.mailbox.queue.map (·.caller)) ++ (before ++ c :: (after ++ y.mailbox.waiting)) := by
      simp [Mailbox.callers, Mailbox.lined, reserved]
    have new : past ++ [] ++ (y.mailbox.occupy ⟨x.key, x.request, c⟩).callers =
        (past ++ y.mailbox.queue.map (·.caller)) ++ c :: (before ++ (after ++ y.mailbox.waiting)) := by
      simp [Mailbox.callers, Mailbox.lined, Mailbox.occupy, erased]
    rw [old] at sorted
    have least (counts : p c = true) (b : CallerId) (ahead : b ∈ before) : p b = true → c ≤ b :=
      first c actor place counts b (reserved ▸ List.mem_append_left _ ahead)
    rw [new, filter_advance sorted least]
    exact sorted
  | withdraw =>
    apply shorter
    rw [List.append_nil]
    exact (List.Sublist.refl past).append (Mailbox.callers_withdraw _ _)

end Signatory.Service.State
