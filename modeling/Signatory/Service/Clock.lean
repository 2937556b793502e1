import Signatory.Service.State

/-!
# The clock

Time is counted in milliseconds from the start of the service. A moment cannot lie arbitrarily far
ahead: waits that would go beyond what the clock can reach are cut to thirty years, but an idle
deadline that is set anew has to be within reach.
-/

namespace Signatory.Service

/-- The last moment that the clock can name; it counts seconds in 63 bits, and it had run for a
while before the service started. -/
def clockReach : Nat := (2 ^ 63 - 86400) * 1000

/-- Thirty years. -/
def longWait : Nat := 86400 * 365 * 30 * 1000

namespace State

/-- Whether the clock can name the moment that is some time from now. -/
def canReach (s : State) (wait : Nat) : Bool :=
  s.now + wait < clockReach

/-- The moment at which a wait is over. -/
def after (s : State) (wait : Nat) : Nat :=
  s.now + (if s.canReach wait then wait else longWait)

/-- Set an alarm for the end of a wait. -/
def alarmAfter (s : State) (wait : Nat) : Alarm × State :=
  s.alarmAt (s.after wait)

end State

end Signatory.Service
