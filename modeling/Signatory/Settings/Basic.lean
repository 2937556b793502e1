import Signatory.Service.Policy

/-!
# Settings

What the program is told when it starts. Windows, capacities and limits have to be greater than
zero; the first that is not is reported.
-/

namespace Signatory

/-- The settings of the program. -/
structure Settings where
  logLevel : String := "info"
  idleTimeoutSecs : UInt64 := 600
  queueCapacity : UInt64 := 64
  requestTimeoutMs : Option UInt64 := none
  syncAttempts : UInt32 := 10
  syncBackoffMs : UInt64 := 0
  ledgerUrl : String := "memory://default"
  ledgerTimeoutMs : UInt64 := 10000
  deriving DecidableEq, Repr

namespace Settings

/-- Refuse settings that nothing could be done with. -/
def validate (s : Settings) : Except Failure Unit :=
  if s.idleTimeoutSecs = 0 then .error (.config (.notPositive "IDLE_TIMEOUT_SECS"))
  else if s.queueCapacity = 0 then .error (.config (.notPositive "QUEUE_CAPACITY"))
  else if s.syncAttempts = 0 then .error (.config (.notPositive "NONCE_SYNC_ATTEMPTS"))
  else if s.requestTimeoutMs = some 0 then
    .error (.config (.notPositiveWhenSet "REQUEST_TIMEOUT_MS"))
  else .ok ()

/-- The policy that the settings ask for. -/
def policy (s : Settings) : Service.Policy where
  idleTimeout := s.idleTimeoutSecs.toNat * 1000
  queueCapacity := s.queueCapacity.toNat
  requestTimeout := s.requestTimeoutMs.map UInt64.toNat
  sync := ⟨s.syncAttempts, s.syncBackoffMs.toNat⟩

end Settings

end Signatory
