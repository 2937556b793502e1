import Signatory.Proofs.Service.Growth

/-!
# Where a request is

A caller that waits for a worker has exactly one envelope with that worker, in its mailbox or in its
hand, and none anywhere else; a caller that is suspended on a mailbox is in its line exactly once.
Every other caller has neither, except that the envelope of a caller who has left may still be
somewhere. Envelopes carry what their callers ask.
-/

namespace Signatory.Service

/-- What a caller is doing. -/
def phase? (callers : Table Caller) (c : CallerId) : Option Phase :=
  (callers.get? c).map (·.phase)

/-- The worker that a caller waits for, in its line or for its reply. -/
def Phase.host? : Phase → Option WorkerId
  | .suspended w => some w
  | .awaiting w => some w
  | _ => none

/-- How many envelopes a caller must have with a worker. -/
def claim (w : WorkerId) : Option Phase → Nat
  | some (.awaiting v) => if v = w then 1 else 0
  | _ => 0

/-- How many envelopes a caller who has left may still have with a worker. -/
def remains : Option Phase → Nat
  | some (.ended _) => 1
  | _ => 0

/-- A caller whose call is not over has not left. -/
theorem remains_of_live {p : Phase} (live : p.isEnded = false) : remains (some p) = 0 := by
  cases p with
  | ended => exact absurd live (by simp [Phase.isEnded])
  | _ => rfl

/-- How often a caller is in the line of a worker whose mailbox is open. -/
def bid (w : WorkerId) : Option Phase → Nat
  | some (.suspended v) => if v = w then 1 else 0
  | _ => 0

/-- A caller must have at most one envelope with a worker. -/
theorem claim_eq (w : WorkerId) (p : Option Phase) : claim w p = 0 ∨ claim w p = 1 := by
  unfold claim
  split
  next v =>
    split
    next => exact .inr rfl
    next => exact .inl rfl
  next => exact .inl rfl

/-- Only a caller that waits for a worker must have an envelope there. -/
theorem eq_awaiting {w : WorkerId} {p : Option Phase} (waits : claim w p = 1) :
    p = some (.awaiting w) := by
  unfold claim at waits
  split at waits
  next v =>
    split at waits
    next same => rw [same]
    next => exact absurd waits Nat.zero_ne_one
  next => exact absurd waits Nat.zero_ne_one

/-- Whether a caller must have an envelope with a worker is whether it waits for that worker. -/
theorem claim_of_awaits (w : WorkerId) (x : Caller) :
    claim w (some x.phase) = if x.awaits w then 1 else 0 := by
  unfold claim Caller.awaits
  cases x.phase <;> simp

/-- What a caller is doing fits what a worker has of it. -/
structure Fits (p : Option Phase) (w : WorkerId) (y : Worker) (c : CallerId) : Prop where
  least : claim w p ≤ y.held.count c
  most : y.held.count c ≤ claim w p + remains p
  lined : y.mailbox.lined.count c = if y.mailbox.closed then 0 else bid w p

/-- What callers do fits what workers have. -/
structure Owned (workers : Table Worker) (callers : Table Caller) : Prop where
  fits : ∀ {c w y}, workers.get? w = some y → Fits (phase? callers c) w y c
  present : ∀ {c x w}, callers.get? c = some x → x.phase.host? = some w →
    ∃ y, workers.get? w = some y
  carried : ∀ {w y e}, workers.get? w = some y → e ∈ y.envelopes →
    ∃ x, callers.get? e.caller = some x ∧ x.key = e.key ∧ x.request = e.request
  shut : ∀ {w y}, workers.get? w = some y → y.mailbox.closed = y.activity.isOver

section Phases

variable {callers : Table Caller} {c d : CallerId} {x z : Caller}

theorem phase?_of_found (found : callers.get? c = some x) : phase? callers c = some x.phase := by
  rw [phase?, found]
  rfl

theorem phase?_set (found : callers.get? c = some z) (d : CallerId) :
    phase? (callers.set c x) d = if c = d then some x.phase else phase? callers d := by
  unfold phase?
  rw [Table.get?_set found]
  split
  next => rfl
  next => rfl

theorem phase?_set_self (found : callers.get? c = some z) :
    phase? (callers.set c x) c = some x.phase := by
  rw [phase?_set found, if_pos rfl]

theorem phase?_set_ne (other : c ≠ d) : phase? (callers.set c x) d = phase? callers d := by
  rw [phase?, phase?, Table.get?_set_ne other]

/-- What does not wait for a worker needs nothing from it. -/
theorem free_of_host {w : WorkerId} {p : Phase} (other : p.host? ≠ some w) :
    claim w (some p) = 0 ∧ bid w (some p) = 0 := by
  cases p with
  | suspended v => exact ⟨rfl, if_neg fun same ↦ other (congrArg some same)⟩
  | awaiting v => exact ⟨if_neg fun same ↦ other (congrArg some same), rfl⟩
  | _ => exact ⟨rfl, rfl⟩

/-- A caller that does not wait for a worker needs nothing from it. -/
theorem phase?_free {w : WorkerId}
    (other : ∀ x, callers.get? c = some x → x.phase.host? ≠ some w) :
    claim w (phase? callers c) = 0 ∧ bid w (phase? callers c) = 0 := by
  unfold phase?
  cases known : callers.get? c with
  | none => exact ⟨rfl, rfl⟩
  | some x => exact free_of_host (other x known)

end Phases

namespace Fits

variable {p q : Option Phase} {w : WorkerId} {y z : Worker} {c : CallerId}

/-- A worker that has the same of a caller fits as well. -/
theorem congr (h : Fits p w y c) (held : z.held.count c = y.held.count c)
    (lined : z.mailbox.lined.count c = y.mailbox.lined.count c)
    (closed : z.mailbox.closed = y.mailbox.closed) : Fits p w z c :=
  ⟨held ▸ h.least, held ▸ h.most, by rw [lined, closed]; exact h.lined⟩

/-- What does not concern a worker fits as before. -/
theorem move (h : Fits p w y c) (claims : claim w q = claim w p) (bids : bid w q = bid w p)
    (leaves : remains p ≤ remains q) : Fits q w y c := by
  have least := h.least
  have most := h.most
  exact ⟨by omega, by omega, by rw [bids]; exact h.lined⟩

/-- A worker has nothing of a caller that neither waits nor has left. -/
theorem absent (h : Fits p w y c) (claims : claim w p = 0) (stays : remains p = 0) :
    y.held.count c = 0 := by
  have := h.most
  omega

end Fits

namespace Owned

variable {workers : Table Worker} {callers : Table Caller} {w : WorkerId} {y z : Worker}
  {c : CallerId} {x next : Caller} {r : Reply}

/-- A caller may go on if what it does next fits what the workers have. -/
theorem set_caller (h : Owned workers callers) (found : callers.get? c = some x)
    (key : next.key = x.key) (request : next.request = x.request)
    (fits : ∀ {w y}, workers.get? w = some y → Fits (some x.phase) w y c →
      Fits (some next.phase) w y c)
    (host : ∀ {w}, next.phase.host? = some w → x.phase.host? = some w) :
    Owned workers (callers.set c next) where
  fits := by
    intro d w y there
    have old := h.fits (c := d) there
    rw [phase?_set found]
    split
    next same =>
      rw [← same, phase?_of_found found] at old
      exact same ▸ fits there old
    next => exact old
  present := by
    intro d y w known waits
    rcases Table.of_set found known with ⟨-, rfl⟩ | ⟨-, known⟩
    · exact h.present found (host waits)
    · exact h.present known waits
  carried := by
    intro w y e there inside
    obtain ⟨z, known, same⟩ := h.carried there inside
    rw [Table.get?_set found]
    split
    next mine =>
      rw [← mine, found] at known
      obtain rfl := Option.some.inj known
      exact ⟨next, rfl, key.trans same.1, request.trans same.2⟩
    next => exact ⟨z, known, same⟩
  shut := h.shut

/-- A caller may turn from one thing to another if neither concerns a worker. -/
theorem turn (h : Owned workers callers) (found : callers.get? c = some x)
    (claims : ∀ w, claim w (some next.phase) = claim w (some x.phase))
    (bids : ∀ w, bid w (some next.phase) = bid w (some x.phase))
    (leaves : remains (some x.phase) ≤ remains (some next.phase))
    (key : next.key = x.key) (request : next.request = x.request)
    (host : ∀ {w}, next.phase.host? = some w → x.phase.host? = some w) :
    Owned workers (callers.set c next) :=
  h.set_caller found key request (fun _ old ↦ old.move (claims _) (bids _) leaves) host

/-- A worker may change if it keeps what it has of callers who wait. -/
theorem set_worker (h : Owned workers callers) (found : workers.get? w = some y)
    (fits : ∀ {c}, Fits (phase? callers c) w y c → Fits (phase? callers c) w z c)
    (kept : ∀ e ∈ z.envelopes, e ∈ y.envelopes)
    (shut : z.mailbox.closed = z.activity.isOver) : Owned (workers.set w z) callers where
  fits := by
    intro c v there known
    rcases Table.of_set found known with ⟨rfl, rfl⟩ | ⟨-, known⟩
    · exact fits (h.fits found)
    · exact h.fits known
  present := by
    intro c x v known waits
    obtain ⟨there, at_v⟩ := h.present known waits
    exact Table.exists_of_set found at_v
  carried := by
    intro v there e known inside
    rcases Table.of_set found known with ⟨-, rfl⟩ | ⟨-, known⟩
    · exact h.carried found (kept e inside)
    · exact h.carried known inside
  shut := by
    intro v there known
    rcases Table.of_set found known with ⟨-, rfl⟩ | ⟨-, known⟩
    · exact shut
    · exact h.shut known

/-- A worker may change in any way that leaves its envelopes and its line alone. -/
theorem same_worker (h : Owned workers callers) (found : workers.get? w = some y)
    (envelopes : z.envelopes = y.envelopes) (lined : z.mailbox.lined = y.mailbox.lined)
    (closed : z.mailbox.closed = y.mailbox.closed)
    (past : z.activity.isOver = y.activity.isOver) : Owned (workers.set w z) callers := by
  refine h.set_worker found (fun old ↦ ?_) (fun e inside ↦ envelopes ▸ inside) ?_
  · exact old.congr (by rw [Worker.held, envelopes]; rfl) (by rw [lined]) closed
  · rw [closed, past, h.shut found]

/-- A caller that does not wait may go on to something else that is no waiting either. -/
theorem go_on (h : Owned workers callers) (found : callers.get? c = some x) {p : Phase}
    (phase : x.phase = p) (apart : p.host? = none) (live : p.isEnded = false)
    (free : next.phase.host? = none) (key : next.key = x.key)
    (request : next.request = x.request) : Owned workers (callers.set c next) := by
  subst phase
  have before (w : WorkerId) := free_of_host (w := w) (p := x.phase) (by simp [apart])
  have after (w : WorkerId) := free_of_host (w := w) (p := next.phase) (by simp [free])
  refine h.turn found (fun w ↦ ?_) (fun w ↦ ?_) ?_ key request ?_
  · rw [(after w).1, (before w).1]
  · rw [(after w).2, (before w).2]
  · rw [remains_of_live live]
    exact Nat.zero_le _
  · intro w waits
    exact absurd (free.symm.trans waits) (by simp)

/-- A caller may end its call if it is in no line. -/
theorem give_up (h : Owned workers callers) (found : callers.get? c = some x)
    (live : x.phase.isEnded = false) (apart : ∀ w, x.phase ≠ .suspended w) (ending : Ending) :
    Owned workers (callers.set c { x with phase := .ended ending }) := by
  refine h.set_caller found rfl rfl ?_ fun waits ↦ absurd waits (by simp [Phase.host?])
  intro w y _ old
  have stays := remains_of_live live
  have bids : bid w (some x.phase) = 0 := by
    cases phase : x.phase with
    | suspended v => exact absurd phase (apart v)
    | _ => rfl
  have most := old.most
  have one := claim_eq w (some x.phase)
  refine ⟨Nat.zero_le _, by simp only [claim, remains]; omega, ?_⟩
  rw [old.lined, bids]
  rfl

/-- A caller that is suspended on a mailbox that is closed may leave. -/
theorem turn_away (h : Owned workers callers) (found : callers.get? c = some x)
    (suspended : x.phase = .suspended w)
    (shut : ∀ y, workers.get? w = some y → y.mailbox.closed = true)
    (free : next.phase.host? = none) (key : next.key = x.key)
    (request : next.request = x.request) : Owned workers (callers.set c next) := by
  refine h.set_caller found key request ?_ fun waits ↦ absurd (free.symm.trans waits) (by simp)
  intro v y there old
  rw [suspended] at old
  have most := old.most
  have none := free_of_host (w := v) (p := next.phase) (by simp [free])
  refine ⟨by rw [none.1]; exact Nat.zero_le _, ?_, ?_⟩
  · simp only [claim, remains] at most
    omega
  · rw [old.lined, none.2]
    by_cases same : w = v
    · rw [shut y (same ▸ there)]
      rfl
    · rw [bid, if_neg same]

/-- A caller and a worker may change together if that concerns no other caller and no other
worker. -/
theorem set_both (h : Owned workers callers) (found : workers.get? w = some y)
    (known : callers.get? c = some x)
    (key : next.key = x.key) (request : next.request = x.request)
    (elsewhere : ∀ {v there}, v ≠ w → Fits (some x.phase) v there c →
      Fits (some next.phase) v there c)
    (others : ∀ d, d ≠ c → z.held.count d = y.held.count d ∧
      z.mailbox.lined.count d = y.mailbox.lined.count d)
    (closed : z.mailbox.closed = y.mailbox.closed)
    (here : Fits (some x.phase) w y c → Fits (some next.phase) w z c)
    (kept : ∀ e ∈ z.envelopes, e ∈ y.envelopes ∨ e = ⟨x.key, x.request, c⟩)
    (past : z.activity.isOver = y.activity.isOver)
    (host : ∀ {v}, next.phase.host? = some v → v = w ∨ x.phase.host? = some v) :
    Owned (workers.set w z) (callers.set c next) where
  fits := by
    intro d v there at_v
    rw [phase?_set known]
    by_cases mine : c = d
    · rw [if_pos mine, ← mine]
      rcases Table.of_set found at_v with ⟨rfl, rfl⟩ | ⟨apart, at_v⟩
      · have old := h.fits (c := c) found
        rw [phase?_of_found known] at old
        exact here old
      · have old := h.fits (c := c) at_v
        rw [phase?_of_found known] at old
        exact elsewhere (Ne.symm apart) old
    · rw [if_neg mine]
      rcases Table.of_set found at_v with ⟨rfl, rfl⟩ | ⟨-, at_v⟩
      · have counts := others d (Ne.symm mine)
        exact (h.fits found).congr counts.1 counts.2 closed
      · exact h.fits at_v
  present := by
    intro d x' v at_d waits
    have old : ∃ there, workers.get? v = some there := by
      rcases Table.of_set known at_d with ⟨-, rfl⟩ | ⟨-, at_d⟩
      · rcases host waits with same | before
        · exact ⟨y, same ▸ found⟩
        · exact h.present known before
      · exact h.present at_d waits
    obtain ⟨there, at_v⟩ := old
    exact Table.exists_of_set found at_v
  carried := by
    intro v there e at_v inside
    have old : e.caller = c ∧ e.key = x.key ∧ e.request = x.request ∨
        ∃ x', callers.get? e.caller = some x' ∧ x'.key = e.key ∧ x'.request = e.request := by
      rcases Table.of_set found at_v with ⟨-, rfl⟩ | ⟨-, at_v⟩
      · rcases kept e inside with before | new
        · exact .inr (h.carried found before)
        · exact .inl (by rw [new]; exact ⟨rfl, rfl, rfl⟩)
      · exact .inr (h.carried at_v inside)
    rw [Table.get?_set known]
    by_cases mine : c = e.caller
    · rw [if_pos mine]
      refine ⟨next, rfl, ?_⟩
      rcases old with ⟨-, own⟩ | ⟨x', known', own⟩
      · exact ⟨key.trans own.1.symm, request.trans own.2.symm⟩
      · rw [← mine, known] at known'
        obtain rfl := Option.some.inj known'
        exact ⟨key.trans own.1, request.trans own.2⟩
    · rw [if_neg mine]
      exact old.resolve_left fun own ↦ mine own.1.symm
  shut := by
    intro v there at_v
    rcases Table.of_set found at_v with ⟨-, rfl⟩ | ⟨-, at_v⟩
    · rw [closed, past, h.shut found]
    · exact h.shut at_v

/-- A caller may put its envelope into an open mailbox, out of nowhere or out of the line. -/
theorem enqueue (h : Owned workers callers) (found : workers.get? w = some y)
    (known : callers.get? c = some x) {mailbox : Mailbox}
    (queue : mailbox.queue = y.mailbox.queue ++ [⟨x.key, x.request, c⟩])
    (closed : mailbox.closed = y.mailbox.closed)
    (line : x.phase = .seeking ∧ mailbox.lined = y.mailbox.lined ∨
      x.phase = .suspended w ∧ mailbox.lined = y.mailbox.lined.erase c)
    (opened : y.mailbox.closed = false) :
    Owned (workers.set w { y with mailbox }) (callers.set c { x with phase := .awaiting w }) := by
  have envelopes : Worker.envelopes { y with mailbox } =
      y.envelopes ++ [⟨x.key, x.request, c⟩] := by
    rw [Worker.envelopes, Worker.envelopes, queue, List.append_assoc]
  have held : Worker.held { y with mailbox } = y.held ++ [c] := by
    rw [Worker.held, envelopes, List.map_append]
    rfl
  refine h.set_both found known rfl rfl ?_ ?_ closed ?_ ?_ rfl ?_
  · intro v there apart old
    rcases line with ⟨seeking, -⟩ | ⟨suspended, -⟩
    · rw [seeking] at old
      exact old.move (if_neg (Ne.symm apart)) rfl (Nat.le_refl 0)
    · rw [suspended] at old
      exact old.move (if_neg (Ne.symm apart)) (if_neg (Ne.symm apart)).symm (Nat.le_refl 0)
  · intro d other
    rw [held, List.count_append, List.count_singleton, if_neg (by simpa using Ne.symm other)]
    refine ⟨rfl, ?_⟩
    rcases line with ⟨-, same⟩ | ⟨-, erased⟩
    · rw [same]
    · rw [erased, List.count_erase_of_ne other]
  · intro old
    have lined := old.lined
    have counts : y.held.count c = 0 := by
      rcases line with ⟨seeking, -⟩ | ⟨suspended, -⟩
      · rw [seeking] at old
        exact old.absent rfl rfl
      · rw [suspended] at old
        exact old.absent rfl rfl
    have one : (Worker.held { y with mailbox }).count c = 1 := by
      rw [held, List.count_append, counts, List.count_singleton_self]
    have mine : claim w (some (.awaiting w)) = 1 := if_pos rfl
    refine ⟨Nat.le_of_eq (by rw [one, mine]), by rw [one, mine]; exact Nat.le_add_right 1 _, ?_⟩
    rw [opened, if_neg Bool.false_ne_true] at lined
    change mailbox.lined.count c = if mailbox.closed then 0 else 0
    rw [ite_self]
    rcases line with ⟨seeking, same⟩ | ⟨suspended, erased⟩
    · rw [same, lined, seeking]
      rfl
    · rw [suspended, bid, if_pos rfl] at lined
      rw [erased, List.count_erase_self, lined]
  · intro e inside
    rw [envelopes] at inside
    exact (List.mem_append.mp inside).imp_right List.mem_singleton.mp
  · intro v waits
    exact .inl (Option.some.inj waits).symm

/-- A caller may join the line of an open mailbox. -/
theorem line_up (h : Owned workers callers) (found : workers.get? w = some y)
    (known : callers.get? c = some x) (seeking : x.phase = .seeking)
    (opened : y.mailbox.closed = false) :
    Owned (workers.set w { y with mailbox := y.mailbox.suspend c })
      (callers.set c { x with phase := .suspended w }) := by
  have lined : (y.mailbox.suspend c).lined = y.mailbox.lined ++ [c] :=
    (List.append_assoc _ _ _).symm
  refine h.set_both found known rfl rfl ?_ ?_ rfl ?_ (fun e inside ↦ .inl inside) rfl ?_
  · intro v there apart old
    rw [seeking] at old
    exact old.move rfl (if_neg (Ne.symm apart)) (Nat.le_refl 0)
  · intro d other
    refine ⟨rfl, ?_⟩
    rw [lined, List.count_append, List.count_singleton, if_neg (by simpa using Ne.symm other)]
    rfl
  · intro old
    have before := old.lined
    rw [seeking] at old before
    have counts := old.absent rfl rfl
    refine ⟨Nat.zero_le _, Nat.le_of_eq counts, ?_⟩
    rw [opened, if_neg Bool.false_ne_true] at before
    rw [lined, List.count_append, before, List.count_singleton_self]
    change _ = if y.mailbox.closed then 0 else _
    have one : bid w (some (.suspended w)) = 1 := if_pos rfl
    rw [opened, if_neg Bool.false_ne_true, one]
    rfl
  · intro v waits
    exact .inl (Option.some.inj waits).symm

/-- A caller may leave the line of a mailbox. -/
theorem step_out (h : Owned workers callers) (found : workers.get? w = some y)
    (known : callers.get? c = some x) (suspended : x.phase = .suspended w) (ending : Ending) :
    Owned (workers.set w { y with mailbox := (y.mailbox.withdraw c).grant.2 })
      (callers.set c { x with phase := .ended ending }) := by
  have queue : (y.mailbox.withdraw c).grant.2.queue = y.mailbox.queue := Mailbox.grant_queue _
  have lined : (y.mailbox.withdraw c).grant.2.lined =
      y.mailbox.reserved.erase c ++ y.mailbox.waiting.erase c := Mailbox.grant_lined _
  have closed : (y.mailbox.withdraw c).grant.2.closed = y.mailbox.closed := Mailbox.grant_closed _
  have envelopes :
      Worker.envelopes { y with mailbox := (y.mailbox.withdraw c).grant.2 } = y.envelopes := by
    rw [Worker.envelopes, Worker.envelopes, queue]
  have held : Worker.held { y with mailbox := (y.mailbox.withdraw c).grant.2 } = y.held := by
    rw [Worker.held, Worker.held, envelopes]
  refine h.set_both found known rfl rfl ?_ ?_ closed ?_ ?_ rfl ?_
  · intro v there apart old
    rw [suspended] at old
    exact old.move rfl (if_neg (Ne.symm apart)).symm (Nat.zero_le 1)
  · intro d other
    rw [held, lined, List.count_append, List.count_erase_of_ne other,
      List.count_erase_of_ne other, ← List.count_append]
    exact ⟨rfl, rfl⟩
  · intro old
    rw [suspended] at old
    have none := old.absent rfl rfl
    have once := old.lined
    rw [bid, if_pos rfl, Mailbox.lined, List.count_append] at once
    refine ⟨Nat.zero_le _, by rw [held, none]; exact Nat.zero_le _, ?_⟩
    rw [lined, List.count_append, List.count_erase_self, List.count_erase_self]
    change _ = if _ then 0 else 0
    rw [ite_self]
    split at once <;> omega
  · intro e inside
    exact .inl (envelopes ▸ inside)
  · intro v waits
    exact absurd waits (by simp [Phase.host?])

/-- A worker may lose an envelope whose caller does not wait for it. -/
theorem discard (h : Owned workers callers) (found : workers.get? w = some y) {e : Envelope}
    (envelopes : y.envelopes = e :: z.envelopes) (lined : z.mailbox.lined = y.mailbox.lined)
    (closed : z.mailbox.closed = y.mailbox.closed)
    (past : z.activity.isOver = y.activity.isOver)
    (gone : claim w (phase? callers e.caller) = 0) : Owned (workers.set w z) callers := by
  have held : y.held = e.caller :: z.held := by
    rw [Worker.held, envelopes]
    rfl
  refine h.set_worker found ?_ (fun f inside ↦ envelopes ▸ List.mem_cons_of_mem e inside) ?_
  · intro c old
    have most := old.most
    have least := old.least
    rw [held] at most least
    refine ⟨?_, ?_, by rw [lined, closed]; exact old.lined⟩
    · by_cases mine : e.caller = c
      · rw [mine] at gone
        omega
      · rwa [List.count_cons_of_ne mine] at least
    · exact Nat.le_trans List.count_le_count_cons most
  · rw [closed, past, h.shut found]

/-- A worker may answer an envelope that it has. -/
theorem answer (h : Owned workers callers) (found : workers.get? w = some y) {e : Envelope}
    (envelopes : y.envelopes = e :: z.envelopes) (lined : z.mailbox.lined = y.mailbox.lined)
    (closed : z.mailbox.closed = y.mailbox.closed)
    (past : z.activity.isOver = y.activity.isOver) (r : Reply) :
    Owned (workers.set w z) (callers.update e.caller (Caller.reply w r)) := by
  have held : y.held = e.caller :: z.held := by
    rw [Worker.held, envelopes]
    rfl
  obtain ⟨x, known, -⟩ := h.carried found (envelopes ▸ List.mem_cons_self)
  cases waits : x.awaits w with
  | false =>
    have same : callers.update e.caller (Caller.reply w r) = callers := by
      apply Table.update_self
      intro x' known'
      obtain rfl := Option.some.inj (known.symm.trans known')
      rw [Caller.reply, waits, if_neg Bool.false_ne_true]
    rw [same]
    refine h.discard found envelopes lined closed past ?_
    rw [phase?_of_found known, claim_of_awaits, waits, if_neg Bool.false_ne_true]
  | true =>
    rw [Table.update_eq_set known, Caller.reply, if_pos waits]
    rw [Caller.awaits_iff] at waits
    refine h.set_both found known rfl rfl ?_ ?_ closed ?_ ?_ past ?_
    · intro v there apart old
      rw [waits] at old
      exact old.move (if_neg (Ne.symm apart)).symm rfl (Nat.le_refl 0)
    · intro d other
      rw [held, lined, List.count_cons_of_ne (Ne.symm other)]
      exact ⟨rfl, rfl⟩
    · intro old
      rw [waits] at old
      have most := old.most
      rw [held, List.count_cons_self] at most
      simp only [claim, remains, if_pos] at most
      refine ⟨Nat.zero_le _, by simp only [claim, remains]; omega, ?_⟩
      rw [lined, closed]
      exact old.lined
    · intro f inside
      exact .inl (envelopes ▸ List.mem_cons_of_mem e inside)
    · intro v waits'
      exact absurd waits' (by simp [Phase.host?])

/-- What a caller is doing once everybody who waits for a worker has a reply. -/
theorem phase?_replyAll (w : WorkerId) (r : Reply) (es : List Envelope) (callers : Table Caller)
    (c : CallerId) :
    phase? (replyAll w r es callers) c =
      if c ∈ es.map (·.caller) ∧ claim w (phase? callers c) = 1 then some (.replied w r)
      else phase? callers c := by
  unfold phase?
  rw [get?_replyAll]
  by_cases listed : c ∈ es.map (·.caller)
  · rw [if_pos listed]
    cases callers.get? c with
    | none => simp [claim]
    | some x =>
      rw [Option.map_some, Option.map_some, Option.map_some, claim_of_awaits, Caller.reply]
      cases waits : x.awaits w with
      | true => rw [if_pos rfl, if_pos rfl, if_pos ⟨listed, rfl⟩]
      | false => rw [if_neg Bool.false_ne_true, if_neg Bool.false_ne_true, if_neg (by simp)]
  · rw [if_neg listed, if_neg fun both ↦ listed both.1]

/-- A worker that closes its mailbox may reply to everybody whose envelope it has. -/
theorem close (h : Owned workers callers) (found : workers.get? w = some y)
    (envelopes : z.envelopes = []) (lined : z.mailbox.lined = [])
    (closed : z.mailbox.closed = true) (past : z.activity.isOver = true) (r : Reply) :
    Owned (workers.set w z) (replyAll w r y.envelopes callers) where
  fits := by
    intro c v there at_v
    rw [phase?_replyAll]
    rcases Table.of_set found at_v with ⟨rfl, rfl⟩ | ⟨apart, at_v⟩
    · have old := h.fits (c := c) found
      refine ⟨?_, by rw [Worker.held, envelopes]; exact Nat.zero_le _, ?_⟩
      · split
        next => exact Nat.zero_le _
        next missed =>
          rcases claim_eq w (phase? callers c) with none | waits
          · rw [none]
            exact Nat.zero_le _
          · have least := old.least
            rw [waits] at least
            exact absurd ⟨List.count_pos_iff.mp least, waits⟩ missed
      · rw [lined, closed]
        rfl
    · have old := h.fits (c := c) at_v
      split
      next both =>
        rw [eq_awaiting both.2] at old
        exact old.move (if_neg apart).symm rfl (Nat.le_refl 0)
      next => exact old
  present := by
    intro c x v known waits
    have old : ∃ x', callers.get? c = some x' ∧ x'.phase.host? = some v := by
      have phase := phase?_of_found known
      rw [phase?_replyAll] at phase
      split at phase
      next =>
        rw [← Option.some.inj phase] at waits
        exact absurd waits (by simp [Phase.host?])
      next =>
        obtain ⟨x', known', same⟩ := Option.map_eq_some_iff.mp phase
        exact ⟨x', known', same ▸ waits⟩
    obtain ⟨x', known', waits'⟩ := old
    obtain ⟨there, at_v⟩ := h.present known' waits'
    exact Table.exists_of_set found at_v
  carried := by
    intro v there e at_v inside
    have old : ∃ x, callers.get? e.caller = some x ∧ x.key = e.key ∧ x.request = e.request := by
      rcases Table.of_set found at_v with ⟨-, rfl⟩ | ⟨-, at_v⟩
      · rw [envelopes] at inside
        exact absurd inside List.not_mem_nil
      · exact h.carried at_v inside
    obtain ⟨x, known, key, request⟩ := old
    obtain ⟨x', known', later⟩ := replyAll_later w r y.envelopes callers _ _ known
    exact ⟨x', known', later.key.trans key, later.request.trans request⟩
  shut := by
    intro v there at_v
    rcases Table.of_set found at_v with ⟨-, rfl⟩ | ⟨-, at_v⟩
    · rw [closed, past]
    · exact h.shut at_v

/-- A worker may be created. -/
theorem push_worker (h : Owned workers callers) (envelopes : z.envelopes = [])
    (lined : z.mailbox.lined = []) (closed : z.mailbox.closed = z.activity.isOver) :
    Owned (workers.push z) callers where
  fits := by
    intro c v there at_v
    rcases Table.of_push at_v with ⟨same, rfl, -⟩ | at_v
    · have unknown (x : Caller) (known : callers.get? c = some x) : x.phase.host? ≠ some v := by
        intro waits
        obtain ⟨there, at_v⟩ := h.present known waits
        exact Nat.ne_of_lt (Table.lt_size at_v) same
      have free := phase?_free unknown
      refine ⟨by rw [free.1]; exact Nat.zero_le _, ?_, ?_⟩
      · rw [Worker.held, envelopes]
        exact Nat.zero_le _
      · rw [lined, free.2, ite_self]
        rfl
    · exact h.fits at_v
  present := by
    intro c x v known waits
    obtain ⟨there, at_v⟩ := h.present known waits
    exact ⟨there, Table.get?_push_of_found at_v⟩
  carried := by
    intro v there e at_v inside
    rcases Table.of_push at_v with ⟨-, rfl, -⟩ | at_v
    · rw [envelopes] at inside
      exact absurd inside List.not_mem_nil
    · exact h.carried at_v inside
  shut := by
    intro v there at_v
    rcases Table.of_push at_v with ⟨-, rfl, -⟩ | at_v
    · exact closed
    · exact h.shut at_v

/-- A call may be made. -/
theorem push_caller (h : Owned workers callers) (fresh : x.phase = .fresh) :
    Owned workers (callers.push x) where
  fits := by
    intro c w y found
    have old := h.fits (c := c) found
    unfold phase? at old ⊢
    rw [Table.get?_push]
    split
    next same =>
      rw [same, Table.get?_size] at old
      rw [Option.map_some, fresh, same]
      exact old.move rfl rfl (Nat.le_refl 0)
    next => exact old
  present := by
    intro c x' v known waits
    rcases Table.of_push known with ⟨-, rfl, -⟩ | known
    · rw [fresh] at waits
      exact absurd waits (by simp [Phase.host?])
    · exact h.present known waits
  carried := by
    intro w y e found inside
    obtain ⟨x', known, own⟩ := h.carried found inside
    exact ⟨x', Table.get?_push_of_found known, own⟩
  shut := h.shut

/-- Workers may change in any way that leaves their envelopes and their lines alone. -/
theorem map_workers (h : Owned workers callers) {after : Table Worker} {f : Worker → Worker}
    (each : ∀ w, after.get? w = (workers.get? w).map f)
    (mailbox : ∀ y, (f y).mailbox = y.mailbox) (activity : ∀ y, (f y).activity = y.activity) :
    Owned after callers where
  fits := by
    intro c w z found
    rw [each w] at found
    obtain ⟨y, known, rfl⟩ := Option.map_eq_some_iff.mp found
    refine (h.fits known).congr ?_ (by rw [mailbox]) (by rw [mailbox])
    rw [Worker.held, Worker.envelopes, mailbox, activity]
    rfl
  present := by
    intro c x w known waits
    obtain ⟨y, found⟩ := h.present known waits
    exact ⟨f y, by rw [each w, found]; rfl⟩
  carried := by
    intro w z e found inside
    rw [each w] at found
    obtain ⟨y, known, rfl⟩ := Option.map_eq_some_iff.mp found
    rw [Worker.envelopes, mailbox, activity] at inside
    exact h.carried known inside
  shut := by
    intro w z found
    rw [each w] at found
    obtain ⟨y, known, rfl⟩ := Option.map_eq_some_iff.mp found
    rw [mailbox, activity, h.shut known]

end Owned

namespace State

variable {s t : State} {τ : Task} {w : WorkerId} {worker : Worker} {e : Envelope} {rest : Mailbox}
  {c : CallerId} {caller : Caller}

/-- A caller that has left needs no envelope. -/
theorem claim_of_gone (gone : s.awaits c w = false) : claim w (phase? s.callers c) = 0 := by
  rw [awaits_eq] at gone
  change (s.callers.get? c).any _ = false at gone
  unfold phase?
  cases known : s.callers.get? c with
  | none => rfl
  | some x =>
    rw [known, Option.any_some] at gone
    rw [Option.map_some, claim_of_awaits, gone, if_neg Bool.false_ne_true]

/-- A closed mailbox is closed. -/
theorem closed_of_isClosed (shut : s.isClosed w = true) (y : Worker)
    (found : s.workers.get? w = some y) : y.mailbox.closed = true := by
  unfold isClosed at shut
  rw [found] at shut
  exact shut

/-- The envelope that a worker takes is the first that it has. -/
theorem Takes.envelopes (takes : Takes s w worker e rest) :
    worker.envelopes = e :: rest.queue := by
  rw [Worker.envelopes_of_idle takes.idle, Mailbox.queue_of_pop? takes.popped]

/-- A worker that takes an envelope has the same callers in its line. -/
theorem Takes.lined (takes : Takes s w worker e rest) :
    rest.grant.2.lined = worker.mailbox.lined := by
  rw [Mailbox.grant_lined, Mailbox.lined_of_pop? takes.popped]

/-- A worker that takes an envelope has the same mailbox open or closed. -/
theorem Takes.closed (takes : Takes s w worker e rest) :
    rest.grant.2.closed = worker.mailbox.closed := by
  rw [Mailbox.grant_closed, Mailbox.closed_of_pop? takes.popped]

/-- The mailbox of a worker that takes an envelope is open. -/
theorem Takes.opened (takes : Takes s w worker e rest) (owned : Owned s.workers s.callers) :
    worker.mailbox.closed = false := by
  rw [owned.shut takes.found, takes.idle]
  rfl

/-- A worker finishes with the envelope in its hand. -/
theorem Finishes.hand {done : Result × Option Identity} {ledgers : List (String × Ledger.Memory)}
    (finishes : Finishes s worker e done ledgers) : worker.activity.hand? = some e := by
  cases finishes with
  | refused connecting => rw [connecting]; rfl
  | connected connecting => rw [connecting]; rfl
  | unknown syncing => rw [syncing]; rfl
  | synced syncing => rw [syncing]; rfl

/-- A worker dies with all the envelopes that it has. -/
theorem Dies.envelopes {mailbox : Mailbox} (dies : Dies s w worker e mailbox) :
    worker.envelopes = e :: mailbox.queue := by
  cases dies with
  | crashed connecting =>
    rw [Worker.envelopes, connecting]
    rfl
  | outOfReach takes => rw [takes.envelopes, Mailbox.grant_queue]

/-- Every change leaves each request where it belongs. -/
theorem Change.owned (h : Owned s.workers s.callers) (change : Change s τ t) :
    Owned t.workers t.callers := by
  cases change with
  | rest => exact h
  | @leave w worker reason found idle cause =>
    have closes := h.close (z := { worker with
      mailbox := worker.mailbox.close, activity := .left reason }) found rfl rfl rfl rfl .handedBack
    rw [Worker.envelopes_of_idle idle] at closes
    exact closes
  | @die w worker hand mailbox found cause =>
    have closes := h.close (z := { worker with
      mailbox := mailbox.close, activity := .died }) found rfl rfl rfl rfl .lost
    rw [cause.envelopes] at closes
    exact closes
  | @skip w worker e rest takes gone =>
    refine h.discard takes.found ?_ takes.lined takes.closed rfl (claim_of_gone gone)
    rw [takes.envelopes, Worker.envelopes, takes.idle, Mailbox.grant_queue]
    rfl
  | @misroute w worker e rest deadline takes waits foreign =>
    refine h.answer (z := { worker with mailbox := rest.grant.2, idle := deadline })
      takes.found ?_ takes.lined takes.closed rfl _
    rw [takes.envelopes, Worker.envelopes, takes.idle, Mailbox.grant_queue]
    rfl
  | connect accepts =>
    have takes := accepts.toTakes
    refine h.same_worker takes.found ?_ takes.lined takes.closed ?_
    · rw [takes.envelopes, Worker.envelopes, Mailbox.grant_queue]
      rfl
    · rw [takes.idle]
      rfl
  | lookup accepts =>
    have takes := accepts.toTakes
    refine h.same_worker takes.found ?_ takes.lined takes.closed ?_
    · rw [takes.envelopes, Worker.envelopes, Mailbox.grant_queue]
      rfl
    · rw [takes.idle]
      rfl
  | @serve w worker e rest deadline done accepts serves =>
    have takes := accepts.toTakes
    refine h.answer (z := { worker with
      mailbox := rest.grant.2, idle := deadline, identity := done.2, activity := .idle })
      takes.found ?_ takes.lined takes.closed ?_ _
    · rw [takes.envelopes, Worker.envelopes, Mailbox.grant_queue]
      rfl
    · rw [takes.idle]
  | @finish w worker e done ledgers found finishes =>
    refine h.answer (z := { worker with identity := done.2, activity := .idle })
      found ?_ rfl rfl ?_ _
    · rw [Worker.envelopes, finishes.hand]
      rfl
    · rw [finishes.live]
      rfl
  | again found syncing =>
    refine h.same_worker found ?_ rfl rfl ?_
    · rw [Worker.envelopes, Worker.envelopes, syncing]
      rfl
    · rw [syncing]
      rfl
  | begin found fresh => exact h.go_on found fresh rfl rfl rfl rfl rfl
  | beginDirect found fresh => exact h.go_on found fresh rfl rfl rfl rfl rfl
  | spawn => exact h.push_worker rfl rfl rfl
  | push offers found opened room =>
    exact h.enqueue found offers.found (by rw [Mailbox.push]) rfl (.inl ⟨offers.seeking, rfl⟩) opened
  | suspend offers found opened full =>
    exact h.line_up found offers.found offers.seeking opened
  | refuse offers => exact h.go_on offers.found offers.seeking rfl rfl rfl rfl rfl
  | refuseDirect offers => exact h.go_on offers.found offers.seeking rfl rfl rfl rfl rfl
  | @occupy c caller w worker known suspended found opened place =>
    have erased : (worker.mailbox.occupy ⟨caller.key, caller.request, c⟩).lined =
        worker.mailbox.lined.erase c := (List.erase_append_left _ place).symm
    exact h.enqueue found known (by rw [Mailbox.occupy]) rfl (.inr ⟨suspended, erased⟩) opened
  | turnAway found suspended shut =>
    exact h.turn_away found suspended (closed_of_isClosed shut) rfl rfl rfl
  | retry found replied => exact h.go_on found replied rfl rfl rfl rfl rfl
  | limit found =>
    exact h.turn found (fun _ ↦ rfl) (fun _ ↦ rfl) (Nat.le_refl _) rfl rfl id
  | @conclude c caller ending found cause =>
    cases cause with
    | closed suspended direct shut =>
      exact h.turn_away found suspended (closed_of_isClosed shut) rfl rfl rfl
    | result replied => exact h.go_on found replied rfl rfl rfl rfl rfl
    | rejected replied => exact h.go_on found replied rfl rfl rfl rfl rfl
    | lost replied => exact h.go_on found replied rfl rfl rfl rfl rfl
    | cancelled seeking => exact h.go_on found seeking rfl rfl rfl rfl rfl
    | crashed seeking => exact h.go_on found seeking rfl rfl rfl rfl rfl
  | notFound found seeking => exact h.go_on found seeking rfl rfl rfl rfl rfl
  | lose found replied => exact h.go_on found replied rfl rfl rfl rfl rfl
  | giveUp found live apart => exact h.give_up found live apart _
  | @withdraw c caller w ending found suspended cause =>
    cases known : s.workers.get? w with
    | none =>
      rw [Table.update_self fun y there ↦ absurd (known.symm.trans there) (by simp)]
      refine h.turn_away found suspended (fun y there ↦ ?_) rfl rfl rfl
      exact absurd (known.symm.trans there) (by simp)
    | some y =>
      rw [Table.update_eq_set known]
      exact h.step_out known found suspended ending

/-- Every use leaves each request where it belongs. -/
theorem Use.owned (h : Owned s.workers s.callers) (use : Use s t) :
    Owned t.workers t.callers := by
  cases use with
  | rest => exact h
  | dispatch => exact h.push_caller rfl
  | drop found => exact h.turn found (fun _ ↦ rfl) (fun _ ↦ rfl) (Nat.le_refl _) rfl rfl id
  | @remove key w named =>
    cases known : s.workers.get? w with
    | none =>
      rw [Table.update_self fun y there ↦ absurd (known.symm.trans there) (by simp)]
      exact h
    | some y =>
      rw [Table.update_eq_set known]
      exact h.same_worker known rfl rfl rfl rfl
  | notFound => exact h
  | shutdown serving cancelled => exact h.map_workers cancelled (fun _ ↦ rfl) fun _ ↦ rfl
  | ledger => exact h
  | wait => exact h

/-- No request is anywhere at the start. -/
theorem owned_start (policy : Policy) (connector : Ledger.Connector) :
    Owned (start policy connector).workers (start policy connector).callers :=
  ⟨fun found ↦ by simp [start] at found, fun found ↦ by simp [start] at found,
    fun found ↦ by simp [start] at found, fun found ↦ by simp [start] at found⟩

end State

end Signatory.Service
