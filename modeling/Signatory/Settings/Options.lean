import Signatory.Settings.Basic

/-!
# Options

Settings are given on the command line, as `--name value` or `--name=value`, or else in the
environment. A value that stands apart from its option is looked at only when the next option or the
end of the line is reached; what is no option at all is refused at once. The environment is looked
at last, for the settings that the command line leaves open, in the order of the settings.
-/

namespace Signatory.Settings

/-- A setting that can be given. -/
inductive Field
  | logLevel
  | idleTimeoutSecs
  | queueCapacity
  | requestTimeoutMs
  | syncAttempts
  | syncBackoffMs
  | ledgerUrl
  | ledgerTimeoutMs
  deriving DecidableEq, Repr

/-- Why a command line is not carried out. -/
inductive Refusal
  | unknownArgument
  | missingValue
  | badValue
  | givenTwice
  | needlessValue
  | help
  deriving DecidableEq, Repr

namespace Field

/-- Every setting, in order. -/
def all : List Field :=
  [.logLevel, .idleTimeoutSecs, .queueCapacity, .requestTimeoutMs, .syncAttempts, .syncBackoffMs,
    .ledgerUrl, .ledgerTimeoutMs]

/-- The name of a setting on the command line. -/
def optionName : Field → String
  | .logLevel => "log-level"
  | .idleTimeoutSecs => "idle-timeout-secs"
  | .queueCapacity => "queue-capacity"
  | .requestTimeoutMs => "request-timeout-ms"
  | .syncAttempts => "nonce-sync-attempts"
  | .syncBackoffMs => "nonce-sync-backoff-ms"
  | .ledgerUrl => "ledger-url"
  | .ledgerTimeoutMs => "ledger-timeout-ms"

/-- The name of a setting in the environment. -/
def environmentName : Field → String
  | .logLevel => "LOG_LEVEL"
  | .idleTimeoutSecs => "IDLE_TIMEOUT_SECS"
  | .queueCapacity => "QUEUE_CAPACITY"
  | .requestTimeoutMs => "REQUEST_TIMEOUT_MS"
  | .syncAttempts => "NONCE_SYNC_ATTEMPTS"
  | .syncBackoffMs => "NONCE_SYNC_BACKOFF_MS"
  | .ledgerUrl => "LEDGER_URL"
  | .ledgerTimeoutMs => "LEDGER_TIMEOUT_MS"

/-- What a setting is for. -/
def description : Field → String
  | .logLevel => "Log level (trace, debug, info, warn, error)"
  | .idleTimeoutSecs => "Seconds a worker may sit without a request before it is evicted"
  | .queueCapacity => "Bounded mailbox size per worker"
  | .requestTimeoutMs => "Deadline per request in milliseconds (unset = wait forever)"
  | .syncAttempts => "Ledger lookups per nonce sync before giving up"
  | .syncBackoffMs => "Delay between failed nonce lookups in milliseconds"
  | .ledgerUrl => "Ledger endpoint used when none is named"
  | .ledgerTimeoutMs => "Timeout for ledger calls in milliseconds"

/-- The setting with a name on the command line. -/
def ofOptionName? (name : List Char) : Option Field :=
  all.find? fun f ↦ f.optionName.toList = name

/-- An unsigned number of 64 bits. -/
def uint64? (text : String) : Option UInt64 :=
  (Text.readUInt64 text.toList).toOption

/-- A number of attempts: an unsigned number of 32 bits, in which zero may have a sign. -/
def uint32? (text : String) : Option UInt32 :=
  let read (digits : List Char) : Option UInt32 :=
    (Text.readUnsigned 10 32 digits).toOption.map UInt32.ofNat
  match text.toList with
  | '-' :: '+' :: _ => none
  | '-' :: digits => (read digits).filter (· = 0)
  | digits => read digits

/-- Give a setting its value. -/
def assign (f : Field) (text : String) (s : Settings) : Option Settings :=
  match f with
  | .logLevel => some { s with logLevel := text }
  | .idleTimeoutSecs => (uint64? text).map fun n ↦ { s with idleTimeoutSecs := n }
  | .queueCapacity => (uint64? text).map fun n ↦ { s with queueCapacity := n }
  | .requestTimeoutMs => (uint64? text).map fun n ↦ { s with requestTimeoutMs := some n }
  | .syncAttempts => (uint32? text).map fun n ↦ { s with syncAttempts := n }
  | .syncBackoffMs => (uint64? text).map fun n ↦ { s with syncBackoffMs := n }
  | .ledgerUrl => some { s with ledgerUrl := text }
  | .ledgerTimeoutMs => (uint64? text).map fun n ↦ { s with ledgerTimeoutMs := n }

end Field

/-- A command line that has been read in part. -/
structure Scan where
  settings : Settings := {}
  /-- The settings that have their values. -/
  given : List Field := []
  /-- The last option and the value that stands after it, if that has not been looked at yet. -/
  pending : Option (Field × Option String) := none
  /-- Whether the end of the options has been marked. -/
  ended : Bool := false

namespace Scan

/-- Give a setting its value, for the first time. -/
def give (s : Scan) (f : Field) (text : String) : Except Refusal Scan :=
  if f ∈ s.given then .error .givenTwice
  else match f.assign text s.settings with
    | none => .error .badValue
    | some settings => .ok { s with settings, given := f :: s.given }

/-- Look at the value that is pending. -/
def resolve (s : Scan) : Except Refusal Scan :=
  match s.pending with
  | none => .ok s
  | some (_, none) => .error .missingValue
  | some (f, some text) => { s with pending := none }.give f text

/-- Look at the value that is pending, then do something else. -/
def resolved (s : Scan) (next : Scan → Except Refusal Scan) : Except Refusal Scan :=
  match s.resolve with
  | .error r => .error r
  | .ok s => next s

/-- Read an option by its name, with the value that is attached to it. -/
def long (s : Scan) (name : List Char) (attached : Option (List Char)) : Except Refusal Scan :=
  if name = "help".toList then
    match attached with
    | some _ => .error .needlessValue
    | none => s.resolved fun _ ↦ .error .help
  else match Field.ofOptionName? name, attached with
    | none, _ => .error .unknownArgument
    | some f, none => s.resolved fun s ↦ .ok { s with pending := some (f, none) }
    | some f, some text => s.resolved fun s ↦ s.give f (String.ofList text)

/-- The value attached to an option. -/
def attached (word : List Char) : Option (List Char) :=
  match word.dropWhile (· ≠ '=') with
  | [] => none
  | _ :: text => some text

/-- Read one more word. -/
def word (s : Scan) (text : String) : Except Refusal Scan :=
  if s.ended then .error .unknownArgument
  else match text.toList with
    | ['-', '-'] => .ok { s with ended := true }
    | '-' :: '-' :: option => s.long (option.takeWhile (· ≠ '=')) (attached option)
    | '-' :: 'h' :: _ => s.resolved fun _ ↦ .error .help
    | '-' :: _ :: _ => .error .unknownArgument
    | _ =>
      match s.pending with
      | some (f, none) => .ok { s with pending := some (f, some text) }
      | _ => .error .unknownArgument

/-- Take a setting that is still open from the environment. -/
def consult (environment : List (String × String)) (s : Scan) (f : Field) :
    Except Refusal Scan :=
  if f ∈ s.given then .ok s
  else match environment.find? (·.1 = f.environmentName) with
    | none => .ok s
    | some (_, text) => s.give f text

end Scan

/-- What is told about the options. -/
def help : String :=
  "Options:" ++ String.join (Field.all.map fun f ↦
    s!"\n  --{f.optionName} <value>  {f.description} [env: {f.environmentName}]")

/-- The settings that a command line and an environment give. -/
def read (words : List String) (environment : List (String × String)) :
    Except Refusal Settings := do
  let s ← words.foldlM Scan.word {}
  let s ← s.resolve
  let s ← Field.all.foldlM (Scan.consult environment) s
  return s.settings

end Signatory.Settings
