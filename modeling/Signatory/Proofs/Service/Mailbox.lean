import Signatory.Service.Mailbox

/-!
# What is in a mailbox

The callers who wait for a place in a mailbox form one line: those for whom a place is reserved,
then those who are suspended. Reserving a place for the next one leaves the line as it is.
-/

namespace Signatory.Service.Mailbox

variable {m rest : Mailbox} {e : Envelope}

/-- The callers who wait for a place or have one reserved, the earliest first. -/
def lined (m : Mailbox) : List CallerId :=
  m.reserved ++ m.waiting

/-- The callers whose envelopes are in a mailbox, and then those who wait for a place. -/
def callers (m : Mailbox) : List CallerId :=
  m.queue.map (·.caller) ++ m.lined

/-- A mailbox without a place to reserve is left alone. -/
theorem grant_of_none (h : m.grant.1 = none) : m.grant.2 = m := by
  unfold grant at h ⊢
  split
  next c rest waiting =>
    rw [waiting] at h
    split
    next room => simp [if_pos room] at h
    next => rfl
  next => rfl

@[simp] theorem grant_queue (m : Mailbox) : m.grant.2.queue = m.queue := by
  unfold grant
  split
  next => split <;> rfl
  next => rfl

@[simp] theorem grant_capacity (m : Mailbox) : m.grant.2.capacity = m.capacity := by
  unfold grant
  split
  next => split <;> rfl
  next => rfl

@[simp] theorem grant_closed (m : Mailbox) : m.grant.2.closed = m.closed := by
  unfold grant
  split
  next => split <;> rfl
  next => rfl

/-- Reserving a place leaves the line as it is. -/
@[simp] theorem grant_lined (m : Mailbox) : m.grant.2.lined = m.lined := by
  unfold grant
  split
  next c others waiting =>
    split
    next =>
      unfold lined
      rw [waiting, List.append_assoc]
      rfl
    next => rfl
  next => rfl

/-- Who waits once a place is reserved has waited before. -/
theorem grant_waiting : m.grant.2.waiting.Sublist m.waiting := by
  unfold grant
  split
  next first others waiting =>
    split
    next =>
      rw [waiting]
      exact List.sublist_cons_self _ _
    next => exact List.Sublist.refl _
  next => exact List.Sublist.refl _

/-- A place is reserved for one who waits. -/
theorem waiting_of_grant {c : CallerId} (granted : m.grant.1 = some c) :
    c ∈ m.waiting ∧ c ∈ m.grant.2.reserved := by
  unfold grant at granted ⊢
  split at granted
  next first others waiting =>
    split at granted
    next room =>
      obtain rfl := Option.some.inj granted
      rw [waiting, if_pos room]
      exact ⟨List.mem_cons_self, List.mem_append_right _ (List.mem_singleton.mpr rfl)⟩
    next => exact absurd granted (by simp)
  next => exact absurd granted (by simp)

/-- Whoever has a place had it before, or it has just been reserved. -/
theorem reserved_before_grant {c : CallerId} (place : c ∈ m.grant.2.reserved) :
    m.grant.1 = some c ∨ c ∈ m.reserved := by
  unfold grant at place ⊢
  split at place
  next first others waiting =>
    split at place
    next room =>
      rw [if_pos room]
      rcases List.mem_append.mp place with old | new
      · exact .inr old
      · exact .inl (congrArg some (List.mem_singleton.mp new).symm)
    next => exact .inr place
  next => exact .inr place

/-- Whoever waits goes on waiting, or has just got a place. -/
theorem waiting_after_grant {c : CallerId} (waits : c ∈ m.waiting) :
    m.grant.1 = some c ∨ c ∈ m.grant.2.waiting := by
  unfold grant
  split
  next first others waiting =>
    split
    next =>
      rw [waiting] at waits
      exact (List.mem_cons.mp waits).imp (congrArg some ·.symm) id
    next => exact .inr waits
  next => exact .inr waits

/-- The oldest envelope is taken out, and nothing else. -/
theorem pop?_eq_some :
    m.pop? = some (e, rest) ↔ m.queue = e :: rest.queue ∧ rest = { m with queue := rest.queue } := by
  unfold pop?
  split
  next first others queue =>
    rw [queue]
    constructor
    · intro taken
      obtain ⟨rfl, rfl⟩ := Prod.mk.inj (Option.some.inj taken)
      exact ⟨rfl, rfl⟩
    · rintro ⟨same, left⟩
      obtain ⟨rfl, rfl⟩ := List.cons.inj same
      rw [left]
  next queue => simp [queue]

/-- The oldest envelope comes first. -/
theorem queue_of_pop? (taken : m.pop? = some (e, rest)) : m.queue = e :: rest.queue :=
  (pop?_eq_some.mp taken).1

/-- Nothing can be taken out of an empty mailbox alone. -/
theorem queue_of_pop?_none (none : m.pop? = none) : m.queue = [] := by
  unfold pop? at none
  split at none
  next => exact absurd none (by simp)
  next queue => exact queue

theorem closed_of_pop? (taken : m.pop? = some (e, rest)) : rest.closed = m.closed := by
  rw [(pop?_eq_some.mp taken).2]

theorem capacity_of_pop? (taken : m.pop? = some (e, rest)) : rest.capacity = m.capacity := by
  rw [(pop?_eq_some.mp taken).2]

theorem waiting_of_pop? (taken : m.pop? = some (e, rest)) : rest.waiting = m.waiting := by
  rw [(pop?_eq_some.mp taken).2]

/-- Taking out an envelope leaves the line as it is. -/
theorem lined_of_pop? (taken : m.pop? = some (e, rest)) : rest.lined = m.lined := by
  unfold lined
  rw [(pop?_eq_some.mp taken).2]

/-- Forgetting a caller leaves the line as it is but for that caller. -/
theorem lined_withdraw (m : Mailbox) (c : CallerId) :
    (m.withdraw c).lined = m.reserved.erase c ++ m.waiting.erase c :=
  rfl

/-- The oldest envelope in a mailbox is that of the first of its callers. -/
theorem callers_of_pop? (taken : m.pop? = some (e, rest)) :
    m.callers = e.caller :: rest.grant.2.callers := by
  rw [callers, callers, queue_of_pop? taken, grant_queue, grant_lined, lined_of_pop? taken]
  rfl

/-- Whose envelope goes in comes last if nobody waits for a place. -/
theorem callers_push (nobody : m.lined = []) : (m.push e).callers = m.callers ++ [e.caller] := by
  have still : (m.push e).lined = [] := nobody
  rw [callers, callers, nobody, still]
  simp [push]

/-- Whoever is suspended comes last. -/
theorem callers_suspend (m : Mailbox) (c : CallerId) : (m.suspend c).callers = m.callers ++ [c] := by
  simp [callers, suspend, lined]

/-- The callers of a mailbox keep their order when one of them leaves. -/
theorem callers_withdraw (m : Mailbox) (c : CallerId) :
    (m.withdraw c).grant.2.callers.Sublist m.callers := by
  rw [callers, callers, grant_queue, grant_lined, lined_withdraw]
  exact (List.Sublist.refl _).append (List.erase_sublist.append List.erase_sublist)

end Signatory.Service.Mailbox
