import Signatory.Proofs.Service.Mailbox
import Signatory.Service.Control

/-!
# What the operations of a service do

Each operation changes a few tables and decides what runs next. The order in which tasks run is left
out here: `State.bare` is a state without its schedule, and there is one equation for each operation
that says what it does to the rest.
-/

namespace Signatory.Service

namespace Table

variable {α : Type} {t : Table α} {i j : Nat} {a b c : α}

/-- Put an entry in place of the one with a number. -/
def set (t : Table α) (i : Nat) (a : α) : Table α :=
  t.update i fun _ ↦ a

/-- Putting an entry in place leaves the others alone. -/
theorem get?_set (found : t.get? i = some b) (j : Nat) :
    (t.set i a).get? j = if i = j then some a else t.get? j := by
  rw [set, get?_update]
  split
  next same => rw [← same, found, Option.map_some]
  next => rfl

/-- The entry that was put in place is found there. -/
theorem get?_set_self (found : t.get? i = some b) : (t.set i a).get? i = some a := by
  rw [get?_set found, if_pos rfl]

/-- What is found where an entry was put in place is that entry. -/
theorem eq_of_set (found : t.get? i = some b) (there : (t.set i a).get? i = some c) : a = c :=
  Option.some.inj ((get?_set_self found).symm.trans there)

/-- Another entry is found as before. -/
theorem get?_set_ne (other : i ≠ j) : (t.set i a).get? j = t.get? j := by
  rw [set, get?_update, if_neg other]

@[simp] theorem size_set : (t.set i a).size = t.size := by
  rw [set, size_update]

/-- Every number below the size names an entry. -/
theorem get?_isSome : (t.get? i).isSome ↔ i < t.size := by
  simp [get?, size]

/-- Only numbers below the size name an entry. -/
theorem lt_size (found : t.get? i = some a) : i < t.size := by
  rw [← get?_isSome, found, Option.isSome_some]

/-- Nothing is found behind the last entry. -/
theorem get?_of_le (beyond : t.size ≤ i) : t.get? i = none := by
  cases known : t.get? i with
  | none => rfl
  | some b => exact absurd (lt_size known) (Nat.not_lt.mpr beyond)

/-- The number of the next entry names none yet. -/
theorem get?_size : t.get? t.size = none :=
  get?_of_le (Nat.le_refl _)

/-- The entry that was added is found at the end. -/
theorem get?_push_self : (t.push a).get? t.size = some a := by
  rw [get?_push, if_pos rfl]

/-- What is found is found when an entry is added. -/
theorem get?_push_of_found (found : t.get? i = some b) : (t.push a).get? i = some b := by
  rw [get?_push, if_neg (Nat.ne_of_lt (lt_size found)), found]

/-- The entry that was changed is found as it has become. -/
theorem get?_update_self {f : α → α} (found : t.get? i = some b) :
    (t.update i f).get? i = some (f b) := by
  rw [get?_update, if_pos rfl, found, Option.map_some]

/-- The entry found where one was changed has come from the one that was there. -/
theorem of_update_self {f : α → α} (there : (t.update i f).get? i = some c) :
    ∃ b, t.get? i = some b ∧ f b = c := by
  rw [get?_update, if_pos rfl] at there
  exact Option.map_eq_some_iff.mp there

/-- There is an entry wherever there was one when another is put in place. -/
theorem exists_of_set (found : t.get? i = some b) (there : t.get? j = some c) :
    ∃ d, (t.set i a).get? j = some d := by
  rw [get?_set found]
  split
  next => exact ⟨a, rfl⟩
  next => exact ⟨c, there⟩

/-- An entry of a table in which one has been put in place is that one, or it was there before. -/
theorem of_set (found : t.get? i = some b) (there : (t.set i a).get? j = some c) :
    i = j ∧ c = a ∨ i ≠ j ∧ t.get? j = some c := by
  rw [get?_set found] at there
  split at there
  next same => exact .inl ⟨same, (Option.some.inj there).symm⟩
  next apart => exact .inr ⟨apart, there⟩

/-- An entry of a table to which one has been added is that one, or it was there before. -/
theorem of_push (there : (t.push a).get? j = some c) :
    j = t.size ∧ c = a ∧ t.get? j = none ∨ t.get? j = some c := by
  rw [get?_push] at there
  split at there
  next new => exact .inl ⟨new, (Option.some.inj there).symm, new ▸ get?_size⟩
  next => exact .inr there

/-- An entry of a table in which one has been changed has come from one that was there before. -/
theorem of_update {f : α → α} (there : (t.update i f).get? j = some c) :
    ∃ b, t.get? j = some b ∧ (i = j ∧ c = f b ∨ i ≠ j ∧ c = b) := by
  rw [get?_update] at there
  split at there
  next same =>
    obtain ⟨b, found, changed⟩ := Option.map_eq_some_iff.mp there
    exact ⟨b, found, .inl ⟨same, changed.symm⟩⟩
  next apart => exact ⟨c, there, .inr ⟨apart, rfl⟩⟩

/-- Two tables with the same entries are the same. -/
theorem ext {t u : Table α} (h : ∀ i, t.get? i = u.get? i) : t = u := by
  obtain ⟨as⟩ := t
  obtain ⟨bs⟩ := u
  congr
  exact Array.ext_getElem? h

/-- Changing an entry that is known is putting another in its place. -/
theorem update_eq_set (found : t.get? i = some a) (f : α → α) : t.update i f = t.set i (f a) := by
  apply ext
  intro j
  rw [get?_update, get?_set found]
  split
  next same => rw [← same, found, Option.map_some]
  next => rfl

/-- Changing an entry twice is changing it once. -/
@[simp] theorem update_update (t : Table α) (i : Nat) (f g : α → α) :
    (t.update i f).update i g = t.update i (g ∘ f) := by
  apply ext
  intro j
  rw [get?_update, get?_update, get?_update]
  split
  next => rw [Option.map_map]
  next => rfl

/-- Changing the entry that was put in place is putting another in its place. -/
@[simp] theorem update_set (t : Table α) (i : Nat) (a : α) (f : α → α) :
    (t.set i a).update i f = t.set i (f a) := by
  rw [set, update_update]
  rfl

/-- Two changes that agree on an entry do the same to it. -/
theorem update_congr {f g : α → α} (same : ∀ a, t.get? i = some a → f a = g a) :
    t.update i f = t.update i g := by
  apply ext
  intro j
  rw [get?_update, get?_update]
  split
  next here => exact Option.map_congr fun a found ↦ same a (here ▸ found)
  next => rfl

/-- Changing nothing in an entry changes nothing. -/
theorem update_self {f : α → α} (same : ∀ a, t.get? i = some a → f a = a) : t.update i f = t := by
  rw [update_congr (g := id) same]
  apply ext
  intro j
  rw [get?_update, Option.map_id, id, ite_self]

end Table

namespace Caller

/-- Whether a caller waits for the reply of a worker. -/
def awaits (w : WorkerId) (x : Caller) : Bool :=
  match x.phase with
  | .awaiting v => v = w
  | _ => false

/-- A caller gets a reply from a worker if it waits for one. -/
def reply (w : WorkerId) (r : Reply) (x : Caller) : Caller :=
  if x.awaits w then { x with phase := .replied w r } else x

variable {w : WorkerId} {r : Reply} {x : Caller}

/-- A caller that waits for a worker is in that phase. -/
theorem awaits_iff : x.awaits w = true ↔ x.phase = .awaiting w := by
  unfold awaits
  split
  next v phase => simp [phase]
  next other => exact iff_of_false (by simp) (other w)

/-- A caller that has a reply does not wait for it any more. -/
theorem any_awaits_of_reply {caller? : Option Caller}
    (h : (caller?.map (reply w r)).any (awaits w) = true) : caller?.any (awaits w) = true := by
  cases caller? with
  | none => exact h
  | some x =>
    rw [Option.map_some, Option.any_some, reply] at h
    split at h
    next waits => exact waits
    next => exact h

/-- A caller gets one reply. -/
theorem reply_reply (q : Reply) : (x.reply w r).reply w q = x.reply w r := by
  by_cases h : x.awaits w
  · rw [reply, reply, if_pos h]
    rfl
  · rw [reply, reply, if_neg h, if_neg h]

end Caller

/-- The callers of some envelopes get the same reply. -/
def replyAll (w : WorkerId) (r : Reply) (es : List Envelope) (callers : Table Caller) :
    Table Caller :=
  es.foldl (fun callers e ↦ callers.update e.caller (Caller.reply w r)) callers

/-- Each caller of an envelope gets its reply, and no other caller. -/
theorem get?_replyAll (w : WorkerId) (r : Reply) (es : List Envelope) (callers : Table Caller)
    (c : CallerId) :
    (replyAll w r es callers).get? c =
      if c ∈ es.map (·.caller) then (callers.get? c).map (Caller.reply w r)
      else callers.get? c := by
  induction es generalizing callers with
  | nil => rfl
  | cons e es ih =>
    have first := ih (callers.update e.caller (Caller.reply w r))
    rw [replyAll, List.foldl_cons, ← replyAll, first, Table.get?_update, List.map_cons]
    by_cases same : e.caller = c
    · have twice : Caller.reply w r ∘ Caller.reply w r = Caller.reply w r :=
        funext fun _ ↦ Caller.reply_reply r
      rw [if_pos same, if_pos (List.mem_cons.mpr (.inl same.symm)), Option.map_map, twice]
      exact ite_self _
    · simp only [if_neg same, List.mem_cons, Ne.symm same, false_or]

/-- What is recorded when the envelopes of a worker are handed back, the latest first. -/
def returns (time : Nat) (w : WorkerId) : List Envelope → Table Caller → List Entry
  | [], _ => []
  | e :: es, callers =>
    returns time w es (callers.update e.caller (Caller.reply w .handedBack)) ++
      if (callers.get? e.caller).any (Caller.awaits w) then [⟨time, .handedBack e.caller w⟩]
      else []

/-- An envelope is handed back exactly if its caller waits for it. -/
theorem mem_returns {time : Nat} {w : WorkerId} {es : List Envelope} {callers : Table Caller}
    {entry : Entry} :
    entry ∈ returns time w es callers ↔
      ∃ e ∈ es, (callers.get? e.caller).any (Caller.awaits w) ∧
        entry = ⟨time, .handedBack e.caller w⟩ := by
  induction es generalizing callers with
  | nil => simp [returns]
  | cons e es ih =>
    rw [returns, List.mem_append, ih]
    constructor
    · rintro (⟨f, here, waits, rfl⟩ | first)
      · refine ⟨f, List.mem_cons_of_mem e here, ?_, rfl⟩
        rw [Table.get?_update] at waits
        split at waits
        next => exact Caller.any_awaits_of_reply waits
        next => exact waits
      · split at first
        next waits => exact ⟨e, List.mem_cons_self, waits, List.mem_singleton.mp first⟩
        next => exact absurd first List.not_mem_nil
    · rintro ⟨f, here, waits, rfl⟩
      by_cases same : e.caller = f.caller
      · right
        rw [same, if_pos waits]
        exact List.mem_singleton.mpr rfl
      · left
        have later := (List.mem_cons.mp here).resolve_left fun eq ↦ same (congrArg _ eq.symm)
        exact ⟨f, later, by rwa [Table.get?_update, if_neg same], rfl⟩

namespace State

/-- A state without its schedule. -/
def bare (s : State) : State :=
  { s with tickets := 0, ready := [], running := none, foreground := none, isSummoned := false }

/-- The directory once a worker is taken out of it. -/
def without (s : State) (key : String) (w : WorkerId) : List (String × WorkerId) :=
  if s.find? key = some w then s.directory.filter (·.1 ≠ key) else s.directory

end State

/-- The counts once a worker has left by itself. -/
def Stats.exit (n : Stats) : ExitReason → Stats
  | .idleTimeout => { n with evicted := n.evicted + 1 }
  | .aborted => { n with aborted := n.aborted + 1 }
  | .removed | .shutdown => n

namespace State

variable (s : State) (w : WorkerId) (c : CallerId)

@[simp] theorem bare_bare : s.bare.bare = s.bare := rfl

@[simp] theorem bare_wake (t : Task) : (s.wake t).bare = s.bare := by
  unfold wake
  split
  next => rfl
  next =>
    split
    next => rfl
    next => rfl

@[simp] theorem bare_wakeCallers (cs : List CallerId) : (s.wakeCallers cs).bare = s.bare := by
  unfold wakeCallers
  induction cs generalizing s with
  | nil => rfl
  | cons c cs ih => rw [List.foldl_cons, ih, bare_wake]

@[simp] theorem bare_wakeAll (ts : List Task) : (ts.foldl wake s).bare = s.bare := by
  induction ts generalizing s with
  | nil => rfl
  | cons t ts ih => rw [List.foldl_cons, ih, bare_wake]

@[simp] theorem bare_wakeWorker : (s.wakeWorker w).bare = s.bare := by
  unfold wakeWorker
  split
  next worker _ =>
    split
    next => exact bare_wake s _
    next => rfl
  next => rfl

@[simp] theorem bare_rest : s.rest.bare = s.bare := rfl

@[simp] theorem bare_log (e : Event) :
    (s.log e).bare = { s.bare with journal := ⟨s.bare.now, e⟩ :: s.bare.journal } := rfl

@[simp] theorem bare_updateWorker (f : Worker → Worker) :
    (s.updateWorker w f).bare = { s.bare with workers := s.bare.workers.update w f } := rfl

@[simp] theorem bare_updateCaller (f : Caller → Caller) :
    (s.updateCaller c f).bare = { s.bare with callers := s.bare.callers.update c f } := rfl

@[simp] theorem bare_count (f : Stats → Stats) :
    (s.count f).bare = { s.bare with stats := f s.bare.stats } := rfl

@[simp] theorem bare_alarmAfter (wait : Nat) : (s.alarmAfter wait).2.bare = s.bare := rfl

@[simp] theorem bare_detach (key : String) :
    (s.detach key w).2.bare = { s.bare with directory := s.bare.without key w } := by
  unfold detach without
  split
  next found => rw [if_pos (show s.bare.find? key = some w from found)]; rfl
  next other => rw [if_neg (show ¬ s.bare.find? key = some w from other)]

@[simp] theorem bare_countExit (reason : ExitReason) :
    (s.countExit reason).bare = { s.bare with stats := s.bare.stats.exit reason } := by
  cases reason <;> rfl

/-- Whether a caller waits is told by its phase. -/
theorem awaits_eq : s.awaits c w = (s.bare.callers.get? c).any (Caller.awaits w) := by
  unfold awaits
  split
  next caller found =>
    rw [show s.bare.callers.get? c = some caller from found]
    rfl
  next missing =>
    rw [show s.bare.callers.get? c = none from missing]
    rfl

@[simp] theorem bare_deliver (r : Reply) :
    (s.deliver w c r).bare =
      { s.bare with callers := s.bare.callers.update c (Caller.reply w r) } := by
  unfold deliver
  rw [awaits_eq]
  split
  next waits =>
    rw [bare_wake, bare_updateCaller, Table.update_congr]
    intro caller found
    rw [found, Option.any_some] at waits
    rw [Caller.reply, if_pos waits]
  next idle =>
    rw [Table.update_self]
    intro caller found
    rw [found, Option.any_some] at idle
    rw [Caller.reply, if_neg idle]

@[simp] theorem bare_deliverAll (r : Reply) (es : List Envelope) :
    (es.foldl (fun s e ↦ s.deliver w e.caller r) s).bare =
      { s.bare with callers := replyAll w r es s.bare.callers } := by
  induction es generalizing s with
  | nil => rfl
  | cons e es ih => rw [List.foldl_cons, ih, bare_deliver]; rfl

@[simp] theorem bare_handBack (e : Envelope) :
    (s.handBack w e).bare =
      { s.bare with
        callers := s.bare.callers.update e.caller (Caller.reply w .handedBack)
        journal := returns s.bare.now w [e] s.bare.callers ++ s.bare.journal } := by
  unfold handBack returns returns
  rw [awaits_eq]
  split
  next waits => rw [bare_deliver, bare_log]; rfl
  next idle =>
    have same : s.bare.callers.update e.caller (Caller.reply w .handedBack) = s.bare.callers := by
      apply Table.update_self
      intro caller found
      rw [found, Option.any_some] at idle
      rw [Caller.reply, if_neg idle]
    rw [same]
    rfl

@[simp] theorem bare_handBackAll (es : List Envelope) :
    (es.foldl (fun s e ↦ s.handBack w e) s).bare =
      { s.bare with
        callers := replyAll w .handedBack es s.bare.callers
        journal := returns s.bare.now w es s.bare.callers ++ s.bare.journal } := by
  induction es generalizing s with
  | nil => rfl
  | cons e es ih =>
    rw [List.foldl_cons, ih, bare_handBack]
    simp only [replyAll, List.foldl_cons, returns, List.nil_append, List.append_assoc]

@[simp] theorem bare_grantPlace :
    (s.grantPlace w).bare =
      { s.bare with
        workers := s.bare.workers.update w
          fun worker ↦ { worker with mailbox := worker.mailbox.grant.2 } } := by
  unfold grantPlace
  split
  next missing =>
    rw [Table.update_self]
    intro worker found
    exact absurd (missing.symm.trans found) (by simp)
  next worker found =>
    split
    next grant =>
      rw [Table.update_self]
      intro other found'
      obtain rfl := Option.some.inj (found.symm.trans found')
      rw [Mailbox.grant_of_none (congrArg Prod.fst grant)]
    next c mailbox grant =>
      rw [bare_wake, bare_updateWorker, Table.update_congr]
      intro other found'
      obtain rfl := Option.some.inj (found.symm.trans found')
      rw [grant]

@[simp] theorem bare_hook (key : String) (reason : ExitReason) :
    (s.hook w key reason).bare =
      { s.bare with
        directory := s.bare.without key w
        stats := s.bare.stats.exit reason
        journal := ⟨s.bare.now, .hooked w reason⟩ :: s.bare.journal } := by
  simp only [hook, bare_countExit, bare_detach, bare_log]
  rfl

@[simp] theorem bare_closeMailbox (mailbox : Mailbox) :
    (s.closeMailbox w mailbox).bare =
      { s.bare with
        workers := s.bare.workers.update w fun worker ↦ { worker with mailbox := mailbox.close }
        journal := ⟨s.bare.now, .closed w⟩ :: s.bare.journal } := by
  simp only [closeMailbox, bare_wakeCallers, bare_log, bare_updateWorker]

/-- What a worker that leaves does: it is taken out of the directory, closes its mailbox, and hands
back what was in it. -/
@[simp] theorem bare_leave (worker : Worker) (reason : ExitReason) :
    (s.leave w worker reason).bare =
      { s.bare with
        directory := s.bare.without worker.key w
        stats := s.bare.stats.exit reason
        workers := s.bare.workers.update w fun y ↦
          { y with mailbox := worker.mailbox.close, activity := .left reason }
        callers := replyAll w .handedBack worker.mailbox.queue s.bare.callers
        journal := returns s.bare.now w worker.mailbox.queue s.bare.callers ++
          ⟨s.bare.now, .closed w⟩ :: ⟨s.bare.now, .hooked w reason⟩ :: s.bare.journal } := by
  simp only [leave, bare_rest, bare_updateWorker, bare_handBackAll, bare_closeMailbox, bare_hook,
    Table.update_update]
  rfl

/-- What a worker that dies does: its mailbox is closed, and whoever waits for it learns that it is
gone. -/
@[simp] theorem bare_die (worker : Worker) (hand : Envelope) :
    (s.die w worker hand).bare =
      { s.bare with
        workers := s.bare.workers.update w fun y ↦
          { y with mailbox := worker.mailbox.close, activity := .died }
        callers := replyAll w .lost (hand :: worker.mailbox.queue) s.bare.callers
        journal := ⟨s.bare.now, .closed w⟩ :: ⟨s.bare.now, .died w⟩ :: s.bare.journal } := by
  simp only [die, bare_rest, bare_updateWorker, bare_deliverAll, bare_closeMailbox, bare_deliver,
    bare_log, Table.update_update, replyAll, List.foldl_cons]
  rfl

@[simp] theorem bare_respond (e : Envelope) (r : Result) :
    (s.respond w e r).bare =
      { s.bare with
        callers := s.bare.callers.update e.caller (Caller.reply w (.answered r))
        journal := ⟨s.bare.now, .answered e.caller w r⟩ :: s.bare.journal } := by
  simp only [respond, bare_deliver, bare_log]

@[simp] theorem bare_complete (e : Envelope) (done : Result × Option Identity) :
    (s.complete w e done).bare =
      { s.bare with
        workers := s.bare.workers.update w fun y ↦
          { y with identity := done.2, activity := .idle }
        callers := s.bare.callers.update e.caller (Caller.reply w (.answered done.1))
        journal := ⟨s.bare.now, .answered e.caller w done.1⟩ :: s.bare.journal } := by
  simp only [complete, bare_respond, bare_updateWorker]

@[simp] theorem bare_beginConnect (e : Envelope) (k : Credentials) :
    (s.beginConnect w e k).bare =
      { s.bare with
        workers := s.bare.workers.update w fun y ↦
          { y with
            activity := .connecting e k (s.bare.connector k.endpoint).outcome
              (s.alarmAfter (s.bare.connector k.endpoint).wait).1 } } :=
  rfl

@[simp] theorem bare_beginLookup (e : Envelope) (attempt wait : Nat) :
    (s.beginLookup w e attempt wait).bare =
      { s.bare with
        workers := s.bare.workers.update w fun y ↦
          { y with activity := .syncing e attempt (s.alarmAfter wait).1 } } :=
  rfl

/-- A connection to a place may bring a ledger into being. -/
@[simp] theorem bare_ensureLedger (place : Ledger.Place) :
    (s.ensureLedger place).bare =
      { s.bare with ledgers := (s.bare.ensureLedger place).ledgers } := by
  cases place <;> rfl

/-- A lookup touches nothing but the ledgers. -/
@[simp] theorem bare_lookup (place : Ledger.Place) (a : Address) :
    (s.lookup place a).2.bare = { s.bare with ledgers := (s.bare.lookup place a).2.ledgers } := by
  cases place <;> rfl

/-- What a lookup answers is told by the ledgers. -/
theorem lookup_bare (place : Ledger.Place) (a : Address) :
    (s.bare.lookup place a).1 = (s.lookup place a).1 := by
  cases place <;> rfl

@[simp] theorem bare_conclude (e : Ending) :
    (s.conclude c e).bare =
      { s.bare with
        callers := s.bare.callers.update c fun caller ↦ { caller with phase := .ended e }
        journal := ⟨s.bare.now, .ended c e⟩ :: s.bare.journal } := by
  simp only [conclude, bare_rest, bare_log, bare_updateCaller]

@[simp] theorem bare_concludeNotFound (key : String) :
    (s.concludeNotFound c key).bare =
      { s.bare with
        stats := { s.bare.stats with notFound := s.bare.stats.notFound + 1 }
        callers := s.bare.callers.update c fun caller ↦
          { caller with phase := .ended (.result (.error (.notFound key))) }
        journal := ⟨s.bare.now, .ended c (.result (.error (.notFound key)))⟩ ::
          s.bare.journal } := by
  simp only [concludeNotFound, bare_conclude, bare_count]

@[simp] theorem bare_retry :
    (s.retry c).bare =
      { s.bare with
        callers := s.bare.callers.update c fun caller ↦
          { caller with phase := .seeking, tries := caller.tries - 1 } } :=
  rfl

@[simp] theorem bare_enqueue (caller : Caller) (put : Mailbox → Envelope → Mailbox) :
    (s.enqueue c caller w put).bare =
      { s.bare with
        workers := s.bare.workers.update w fun y ↦
          { y with mailbox := put y.mailbox ⟨caller.key, caller.request, c⟩ }
        callers := s.bare.callers.update c fun caller ↦ { caller with phase := .awaiting w }
        journal := ⟨s.bare.now, .queued c w⟩ :: s.bare.journal } := by
  simp only [enqueue, bare_wakeWorker, bare_log, bare_updateCaller, bare_updateWorker]

/-- What a caller who gives up on a mailbox leaves behind. -/
@[simp] theorem bare_withdraw {caller : Caller} (suspended : caller.phase = .suspended w) :
    (s.withdraw c caller).bare =
      { s.bare with
        workers := s.bare.workers.update w fun y ↦
          { y with mailbox := (y.mailbox.withdraw c).grant.2 } } := by
  unfold withdraw
  rw [suspended]
  dsimp only
  split
  next missing =>
    rw [Table.update_self]
    intro worker found
    exact absurd (missing.symm.trans found) (by simp)
  next worker found =>
    have same : (s.bare.workers.update w fun y ↦
          { y with mailbox := (worker.mailbox.withdraw c).grant.2 }) =
        s.bare.workers.update w fun y ↦ { y with mailbox := (y.mailbox.withdraw c).grant.2 } := by
      apply Table.update_congr
      intro other found'
      obtain rfl := Option.some.inj (found.symm.trans found')
      rfl
    split
    next => rw [bare_wakeWorker, bare_wakeCallers, bare_updateWorker, same]
    next => rw [bare_wakeCallers, bare_updateWorker, same]

/-- A caller who is not suspended leaves nothing behind. -/
theorem withdraw_of_ne {caller : Caller} (other : ∀ w, caller.phase ≠ .suspended w) :
    s.withdraw c caller = s := by
  unfold withdraw
  split
  next w suspended => exact absurd suspended (other w)
  next => rfl

/-- A worker that is created has a place in the directory, instead of any other for its key. -/
theorem bare_spawn (key : String) :
    (s.spawn key).2.bare =
      { s.bare with
        directory := (key, s.workers.size) :: s.directory.filter (·.1 ≠ key)
        stats := { s.stats with created := s.stats.created + 1 }
        workers := s.workers.push
          { key
            mailbox := { capacity := max s.policy.queueCapacity 1 }
            idle := (s.alarmAfter s.policy.idleTimeout).1 }
        journal := ⟨s.now, .spawned s.workers.size key⟩ :: s.journal } := by
  unfold spawn
  dsimp only
  generalize woken : (State.log _ (.spawned s.workers.size key)).wake _ = u
  have same := congrArg bare woken
  rw [bare_wake] at same
  calc _ = { u.bare with
        directory := (key, s.workers.size) :: u.bare.directory.filter (·.1 ≠ key)
        stats := { u.bare.stats with created := u.bare.stats.created + 1 } } := rfl
    _ = _ := by rw [← same]; rfl

end State

end Signatory.Service
