import Signatory.Sync
import Signatory.Text.Duration

/-!
# Policies

What a service grants its workers and callers: how long a worker may idle, how many requests may
queue for it, how long a caller waits at most, and how sequence numbers are synchronised. Times are
in milliseconds.
-/

namespace Signatory.Service

/-- The limits that a service keeps. -/
structure Policy where
  idleTimeout : Nat := 600000
  queueCapacity : Nat := 64
  requestTimeout : Option Nat := none
  sync : SyncSettings := {}
  deriving Repr

namespace Policy

/-- What is shown of a policy in summaries. -/
def summary (p : Policy) : String :=
  let limit := match p.requestTimeout with
    | none => "None"
    | some ms => s!"Some({Text.duration ms})"
  "RegistryConfig \x7b idle_timeout: " ++ Text.duration p.idleTimeout ++
    s!", queue_capacity: {p.queueCapacity}, request_timeout: {limit}, nonce_sync: " ++
    s!"NonceSyncConfig \x7b max_attempts: {p.sync.maxAttempts}, backoff: " ++
    Text.duration p.sync.backoff ++ " \x7d \x7d"

end Policy

end Signatory.Service
