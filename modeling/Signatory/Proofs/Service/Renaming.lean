import Mathlib.Data.List.Basic
import Signatory.Service.State

/-!
# Other numbers

Callers and workers are known by their numbers, so the same worker or caller looks different in two
runs that number them differently. A renaming says which number stands for which; an alarm is only
known by its time, since its ticket has no meaning outside its run.
-/

namespace Signatory.Service

/-- Which number of a caller and of a worker in one run stands for which in another. -/
structure Renaming where
  caller : CallerId → CallerId
  worker : WorkerId → WorkerId

/-- The renaming that renames nothing. -/
def Renaming.same : Renaming := ⟨id, id⟩

variable (φ : Renaming)

/-- An envelope with its caller renamed. -/
def Envelope.rename (e : Envelope) : Envelope :=
  { e with caller := φ.caller e.caller }

/-- A mailbox with its callers renamed. -/
def Mailbox.rename (m : Mailbox) : Mailbox :=
  { m with
    queue := m.queue.map (·.rename φ)
    reserved := m.reserved.map φ.caller
    waiting := m.waiting.map φ.caller }

/-- A phase with its workers renamed. -/
def Phase.rename : Phase → Phase
  | .fresh => .fresh
  | .seeking => .seeking
  | .suspended w => .suspended (φ.worker w)
  | .awaiting w => .awaiting (φ.worker w)
  | .replied w r => .replied (φ.worker w) r
  | .ended e => .ended e

/-- What a worker does is what another does under other names. -/
inductive Activity.Like : Activity → Activity → Prop
  | idle : Like .idle .idle
  | connecting {e : Envelope} {c : Credentials} {outcome : Ledger.Connection} {a b : Alarm}
    (due : b.time = a.time) :
    Like (.connecting e c outcome a) (.connecting (e.rename φ) c outcome b)
  | syncing {e : Envelope} {attempt : Nat} {a b : Alarm} (due : b.time = a.time) :
    Like (.syncing e attempt a) (.syncing (e.rename φ) attempt b)
  | left (reason : ExitReason) : Like (.left reason) (.left reason)
  | died : Like .died .died

/-- A worker is another under other names. -/
structure Worker.Like (y z : Worker) : Prop where
  key : z.key = y.key
  identity : z.identity = y.identity
  mailbox : z.mailbox = y.mailbox.rename φ
  idle : z.idle.time = y.idle.time
  cancelled : z.cancelled = y.cancelled
  held : z.isHeld = y.isHeld
  activity : y.activity.Like φ z.activity

/-- A caller that asks the directory is another under other names. -/
structure Caller.Like (x y : Caller) : Prop where
  key : y.key = x.key
  request : y.request = x.request
  direct : x.direct = none
  direct' : y.direct = none
  tries : y.tries = x.tries
  phase : y.phase = x.phase.rename φ
  limit : y.limit.map (·.time) = x.limit.map (·.time)
  dropped : y.dropped = x.dropped

variable {φ} {m : Mailbox} {e : Envelope} {c : CallerId} {x y : Caller} {w v : WorkerId}

namespace Mailbox

@[simp] theorem free_rename : (m.rename φ).free = m.free := by
  simp [free, rename]

@[simp] theorem closed_rename : (m.rename φ).closed = m.closed := rfl

@[simp] theorem push_rename : (m.rename φ).push (e.rename φ) = (m.push e).rename φ := by
  simp [push, rename]

@[simp] theorem suspend_rename : (m.rename φ).suspend (φ.caller c) = (m.suspend c).rename φ := by
  simp [suspend, rename]

@[simp] theorem close_rename : (m.rename φ).close = m.close.rename φ := by
  simp [close, rename]

@[simp] theorem isAwaited_rename : (m.rename φ).isAwaited = m.isAwaited := by
  simp [isAwaited, rename]

/-- Whose place is reserved is told under any names. -/
theorem mem_reserved_rename (apart : Function.Injective φ.caller) :
    φ.caller c ∈ (m.rename φ).reserved ↔ c ∈ m.reserved :=
  List.mem_map_of_injective apart

theorem occupy_rename (apart : Function.Injective φ.caller) :
    (m.rename φ).occupy (e.rename φ) = (m.occupy e).rename φ := by
  simp [occupy, rename, Envelope.rename, List.map_erase apart]

theorem withdraw_rename (apart : Function.Injective φ.caller) :
    (m.rename φ).withdraw (φ.caller c) = (m.withdraw c).rename φ := by
  simp [withdraw, rename, List.map_erase apart]

/-- Who gets a place that becomes free is told under any names. -/
theorem grant_rename :
    (m.rename φ).grant = (m.grant.1.map φ.caller, m.grant.2.rename φ) := by
  unfold grant
  rw [show (m.rename φ).waiting = m.waiting.map φ.caller from rfl, free_rename]
  cases waiting : m.waiting with
  | nil => rfl
  | cons c rest => by_cases room : 0 < m.free <;> simp [room, rename, waiting]

/-- Which envelope is the oldest is told under any names. -/
theorem pop?_rename :
    (m.rename φ).pop? = m.pop?.map fun taken ↦ (taken.1.rename φ, taken.2.rename φ) := by
  unfold pop?
  rw [show (m.rename φ).queue = m.queue.map (·.rename φ) from rfl]
  cases queue : m.queue with
  | nil => rfl
  | cons e rest => rfl

end Mailbox

/-- Whether a worker looks for something to do is told under any names. -/
theorem Activity.Like.isIdle {a b : Activity} (like : a.Like φ b) : b.isIdle = a.isIdle := by
  cases like <;> rfl

@[simp] theorem Phase.isEnded_rename (p : Phase) : (p.rename φ).isEnded = p.isEnded := by
  cases p <;> rfl

end Signatory.Service
