import Signatory.Service.Request

/-!
# Mailboxes

A mailbox holds a bounded number of envelopes for one worker. A caller who finds no room is
suspended; when an envelope is taken out, the place that becomes free is reserved for the caller who
has been suspended longest, and that caller's envelope goes in when the caller next runs. So the
envelopes in the mailbox and the reserved places never exceed the capacity.
-/

namespace Signatory.Service

/-- Names a caller; no two callers ever have the same one. -/
abbrev CallerId := Nat

/-- Names a worker; no two workers ever have the same one. -/
abbrev WorkerId := Nat

/-- A request on its way to a worker. -/
structure Envelope where
  key : String
  request : Request
  caller : CallerId

/-- What waits for a worker. -/
structure Mailbox where
  capacity : Nat
  /-- The envelopes, the oldest first. -/
  queue : List Envelope := []
  /-- The callers for whom a place is reserved, the earliest first. -/
  reserved : List CallerId := []
  /-- The callers who wait for a place, the earliest first. -/
  waiting : List CallerId := []
  closed : Bool := false

namespace Mailbox

/-- The number of places that are neither taken nor reserved. -/
def free (m : Mailbox) : Nat :=
  m.capacity - m.queue.length - m.reserved.length

/-- Put an envelope into a free place. -/
def push (m : Mailbox) (e : Envelope) : Mailbox :=
  { m with queue := m.queue ++ [e] }

/-- Suspend a caller. -/
def suspend (m : Mailbox) (c : CallerId) : Mailbox :=
  { m with waiting := m.waiting ++ [c] }

/-- Put an envelope into the place that is reserved for its caller. -/
def occupy (m : Mailbox) (e : Envelope) : Mailbox :=
  { m with queue := m.queue ++ [e], reserved := m.reserved.erase e.caller }

/-- Reserve a place that is free for the caller who has waited longest, and say for whom. -/
def grant (m : Mailbox) : Option CallerId × Mailbox :=
  match m.waiting with
  | c :: rest =>
    if 0 < m.free then (some c, { m with waiting := rest, reserved := m.reserved ++ [c] })
    else (none, m)
  | [] => (none, m)

/-- Forget a suspended caller, and a place reserved for that caller. -/
def withdraw (m : Mailbox) (c : CallerId) : Mailbox :=
  { m with waiting := m.waiting.erase c, reserved := m.reserved.erase c }

/-- Take out the oldest envelope. -/
def pop? (m : Mailbox) : Option (Envelope × Mailbox) :=
  match m.queue with
  | e :: rest => some (e, { m with queue := rest })
  | [] => none

/-- Close a mailbox for good and empty it. -/
def close (m : Mailbox) : Mailbox :=
  { m with queue := [], reserved := [], waiting := [], closed := true }

/-- Whether any caller waits for a place or has one reserved. -/
def isAwaited (m : Mailbox) : Bool :=
  !m.waiting.isEmpty || !m.reserved.isEmpty

/-- The taken and the reserved places do not exceed the capacity, and nobody waits while a place is
free. -/
def Sound (m : Mailbox) : Prop :=
  m.queue.length + m.reserved.length ≤ m.capacity ∧ (m.waiting ≠ [] → m.free = 0)

namespace Sound

variable {m : Mailbox}

/-- A mailbox that nobody has used is sound. -/
theorem unused (capacity : Nat) : Sound { capacity } := by
  simp [Sound]

/-- An envelope may be put into a free place. -/
theorem push (h : m.Sound) (e : Envelope) (room : 0 < m.free) : (m.push e).Sound := by
  refine ⟨?_, fun waits ↦ absurd (h.2 waits) (Nat.ne_of_gt room)⟩
  simp only [free] at room
  simp only [Mailbox.push, List.length_append, List.length_singleton]
  omega

/-- A caller may be suspended if no place is free. -/
theorem suspend (h : m.Sound) (c : CallerId) (full : m.free = 0) : (m.suspend c).Sound :=
  ⟨h.1, fun _ ↦ full⟩

/-- An envelope may be put into the place that is reserved for its caller. -/
theorem occupy (h : m.Sound) (e : Envelope) (place : e.caller ∈ m.reserved) :
    (m.occupy e).Sound := by
  have reserved := List.length_erase_of_mem place
  have some_reserved := List.length_pos_of_mem place
  refine ⟨?_, fun waits ↦ ?_⟩
  · have := h.1
    simp only [Mailbox.occupy, List.length_append, List.length_singleton]
    omega
  · have := h.2 waits
    simp only [free, Mailbox.occupy, List.length_append, List.length_singleton] at this ⊢
    omega

/-- A mailbox in which nobody waits next to two free places is sound once a place is granted. -/
theorem grant (bound : m.queue.length + m.reserved.length ≤ m.capacity)
    (near : m.waiting ≠ [] → m.free ≤ 1) : m.grant.2.Sound := by
  unfold Mailbox.grant
  split
  next c rest waiting =>
    have few := near (by simp [waiting])
    split
    next room =>
      simp only [free] at room few
      refine ⟨?_, fun _ ↦ ?_⟩
      · simp only [List.length_append, List.length_singleton]
        omega
      · simp only [free, List.length_append, List.length_singleton]
        omega
    next full => exact ⟨bound, fun _ ↦ Nat.eq_zero_of_not_pos full⟩
  next waiting => exact ⟨bound, fun waits ↦ absurd waiting waits⟩

/-- Taking out an envelope and granting its place leaves a mailbox sound. -/
theorem grant_pop {e : Envelope} {rest : Mailbox} (h : m.Sound) (taken : m.pop? = some (e, rest)) :
    rest.grant.2.Sound := by
  unfold pop? at taken
  split at taken
  next first others queue =>
    obtain ⟨-, rfl⟩ := Prod.mk.inj (Option.some.inj taken)
    have bound := h.1
    simp only [queue, List.length_cons] at bound
    have full := h.2
    simp only [free, queue, List.length_cons] at full
    refine grant (by dsimp only; omega) fun waits ↦ ?_
    have := full waits
    simp only [free]
    omega
  next => exact absurd taken (by simp)

/-- Forgetting a caller and granting the place that becomes free leaves a mailbox sound. -/
theorem grant_withdraw (h : m.Sound) (c : CallerId) : (m.withdraw c).grant.2.Sound := by
  have fewer := List.length_erase_le (a := c) (l := m.reserved)
  have near : m.reserved.length ≤ (m.reserved.erase c).length + 1 := by
    rw [List.length_erase]
    split <;> omega
  refine grant ?_ fun waits ↦ ?_
  · have := h.1
    simp only [Mailbox.withdraw]
    omega
  · have full := h.2 fun none_waits ↦ waits (by simp [Mailbox.withdraw, none_waits])
    simp only [free, Mailbox.withdraw] at full ⊢
    omega

/-- A closed mailbox is sound. -/
theorem close (m : Mailbox) : m.close.Sound := by
  simp [Sound, Mailbox.close]

end Sound

end Mailbox

end Signatory.Service
