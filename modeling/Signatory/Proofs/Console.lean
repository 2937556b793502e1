import Signatory.Console
import Signatory.Proofs.Service.Survival

/-!
# What the program survives

A line that is answered is part of a run of the service, so what holds of every run holds of every
sequence of commands, whatever time passes between them. The settings bound what can go wrong.
-/

namespace Signatory

open Service State

variable {s t : State}

/-- The connector of the program never crashes. -/
theorem Ledger.Connector.direct_sound (endpoint : String) :
    (Ledger.Connector.direct endpoint).outcome ≠ .crash := by
  unfold Ledger.Connector.direct
  split <;> simp

/-- What an answer to a command tells: a result, that there is no worker, or how a call failed. -/
inductive Command.Tells (t : State) : Json.Value → Prop
  | success (v : Json.Value) : Tells t (Command.success v)
  | notFound (key : String) : Tells t (Command.failed (.notFound key))
  | failed {c : CallerId} {x : Caller} {e : Failure} (found : t.callers.get? c = some x)
    (past : x.phase = .ended (.result (.error e))) : Tells t (Command.failed e)

/-- Asking a worker is part of a run, and the answer tells how the call ended. -/
theorem Command.ask_run (key : String) (request : Request) :
    Run s (Command.ask s key request).2 ∧
      ∀ answer, (Command.ask s key request).1 = some answer →
        Command.Tells (Command.ask s key request).2 answer := by
  have run := Run.call s key request
  unfold Command.ask
  generalize s.call { key, request } = called at run
  obtain ⟨c, u⟩ := called
  dsimp only at run ⊢
  split
  next => exact ⟨run, fun answer told ↦ Option.some.inj told ▸ .success _⟩
  next e past =>
    obtain ⟨x, found, phase⟩ := phase_of_ending? past
    exact ⟨run, fun answer told ↦ Option.some.inj told ▸ .failed found phase⟩
  next => exact ⟨run, fun answer told ↦ absurd told (by simp)⟩

/-- Carrying out a command is part of a run, and the answer tells what became of it. -/
theorem Command.execute_run (c : Command) :
    Run s (c.execute s).2 ∧
      ∀ answer, (c.execute s).1 = some answer → Command.Tells (c.execute s).2 answer := by
  cases c with
  | generate key k =>
    unfold Command.execute
    exact Command.ask_run key _
  | sign key d =>
    unfold Command.execute
    exact Command.ask_run key _
  | sync key =>
    unfold Command.execute
    exact Command.ask_run key _
  | query key q =>
    unfold Command.execute
    exact Command.ask_run key _
  | remove key =>
    have run : Run s (s.remove key).2 := .single (.remove s key)
    have fails {e : Failure} (failed : (s.remove key).1 = .error e) : e = .notFound key := by
      unfold State.remove at failed
      split at failed
      next => exact (Except.error.inj failed).symm
      next => exact absurd failed (by simp)
    unfold Command.execute
    dsimp only
    split
    next u removed =>
      rw [removed] at run
      exact ⟨run.trans (Run.settle u), fun answer told ↦ Option.some.inj told ▸ .success _⟩
    next e u refused =>
      rw [refused] at run fails
      obtain rfl := fails rfl
      exact ⟨run, fun answer told ↦ Option.some.inj told ▸ .notFound key⟩
  | stats => exact ⟨.refl, fun answer told ↦ Option.some.inj told ▸ .success _⟩
  | quit => exact ⟨.refl, fun answer told ↦ Option.some.inj told ▸ .success _⟩

/-- Answering a line is part of a run; the answer refuses the line or tells what became of its
command. -/
theorem Console.turn_run {endpoint : String} {line : Bytes} {answer : Option Json.Value}
    (next : Console.turn endpoint s line = .next answer t) :
    Run s t ∧ ∀ told, answer = some told →
      (∃ fault, told = Command.refused fault) ∨ Command.Tells t told := by
  have performed (c : Command) (next : Console.perform s c = .next answer t) :
      Run s t ∧ ∀ told, answer = some told → Command.Tells t told := by
    unfold Console.perform at next
    split at next
    next => exact absurd next (by simp)
    next =>
      obtain ⟨run, tells⟩ := Command.execute_run (s := s) c
      split at next
      next reply u done =>
        obtain ⟨rfl, rfl⟩ := Console.Turn.next.inj next
        rw [done] at run tells
        exact ⟨run, fun told same ↦ Option.some.inj same ▸ tells reply rfl⟩
      next => exact absurd next (by simp)
  unfold Console.turn at next
  split at next
  next => exact absurd next (by simp)
  next text _ =>
    split at next
    next =>
      obtain ⟨rfl, rfl⟩ := Console.Turn.next.inj next
      exact ⟨.refl, fun told same ↦ absurd same (by simp)⟩
    next =>
      split at next
      next fault _ =>
        obtain ⟨rfl, rfl⟩ := Console.Turn.next.inj next
        exact ⟨.refl, fun told same ↦ .inl ⟨fault, (Option.some.inj same).symm⟩⟩
      next c _ => exact (performed c next).imp_right fun tells told same ↦ .inr (tells told same)

/-- The kind of failure that an answer reports, if it reports one. -/
def Command.reported? (answer : Json.Value) : Option Json.Value :=
  (answer.get? "error").bind fun e ↦ e.get? "kind"

/-- A member that is put in is found, and the others are found as before. -/
theorem Json.Value.find?_insertMember (key : String) (v : Value) (members : List (String × Value))
    (k : String) :
    ((insertMember key v members).find? (·.1 = k)).map (·.2) =
      if key = k then some v else (members.find? (·.1 = k)).map (·.2) := by
  induction members with
  | nil =>
    rw [insertMember, List.find?_cons]
    by_cases same : key = k
    · rw [if_pos same, decide_eq_true same]
      rfl
    · rw [if_neg same, decide_eq_false same]
  | cons m rest ih =>
    obtain ⟨l, w⟩ := m
    rw [insertMember]
    split
    next =>
      rw [List.find?_cons]
      by_cases same : key = k
      · rw [if_pos same, decide_eq_true same]
        rfl
      · rw [if_neg same, decide_eq_false same]
    next =>
      split
      next replaced =>
        rw [List.find?_cons, List.find?_cons, ← replaced]
        by_cases same : key = k
        · rw [if_pos same, decide_eq_true same]
          rfl
        · rw [if_neg same, decide_eq_false same]
      next other =>
        rw [List.find?_cons, List.find?_cons]
        by_cases first : l = k
        · rw [decide_eq_true first, if_neg fun same ↦ other (same.trans first.symm)]
        · rw [decide_eq_false first]
          exact ih

theorem Command.reported?_success (v : Json.Value) : reported? (success v) = none := by
  simp [reported?, success, Json.Value.record, Json.Value.orderMembers, Json.Value.get?,
    Json.Value.find?_insertMember]

theorem Command.reported?_failed (e : Failure) :
    reported? (failed e) = some (.string e.kind) := by
  simp [reported?, failed, Json.Value.record, Json.Value.orderMembers, Json.Value.get?,
    Json.Value.find?_insertMember]

theorem Command.reported?_refused (fault : UsageFault) :
    reported? (refused fault) = some (.string "usage") := by
  simp [reported?, refused, Json.Value.record, Json.Value.orderMembers, Json.Value.get?,
    Json.Value.find?_insertMember]

/-- Only violations are of their kind. -/
theorem Failure.violation_of_kind {e : Failure} (same : e.kind = (Failure.violation (.other "")).kind) :
    ∃ fault, e = .violation fault := by
  cases e with
  | violation fault => exact ⟨fault, rfl⟩
  | _ => exact absurd same (by simp [Failure.kind])

/-- What settings do to a service whose connector never crashes, whatever is asked of it and however
much time passes. A worker dies only if it accepts a request at a moment from which the end of its
idle window is beyond what the clock can name; a call crashes only if no mailbox can be as large as
asked for; and a call ends with a violation only after a worker has died. All other waits end within
reach. So if the capacity is possible, then as long as the clock can name the end of an idle window
no worker has died, no call has ended with a crash or a violation, and no line is answered with
one. -/
theorem Settings.survives (settings : Settings) {connector : Ledger.Connector}
    (sound : ∀ endpoint, (connector endpoint).outcome ≠ .crash)
    (run : Run (start settings.policy connector) s) :
    (∀ time w, ⟨time, .died w⟩ ∈ s.journal →
      time ≤ s.now ∧ clockReach ≤ time + settings.idleTimeoutSecs.toNat * 1000) ∧
    (∀ c x, s.callers.get? c = some x → x.phase = .ended .crashed →
      capacityLimit < settings.queueCapacity.toNat) ∧
    (∀ c x fault, s.callers.get? c = some x →
      x.phase = .ended (.result (.error (.violation fault))) →
      ∃ time w, ⟨time, .died w⟩ ∈ s.journal) ∧
    (s.now + longWait < clockReach → ∀ wait, s.after wait < clockReach) ∧
    (settings.queueCapacity.toNat ≤ capacityLimit →
      (s.now + settings.idleTimeoutSecs.toNat * 1000 < clockReach →
        (∀ w y, s.workers.get? w = some y → y.activity ≠ .died) ∧
        ∀ c x ending, s.callers.get? c = some x → x.phase = .ended ending →
          ending ≠ .crashed ∧ ∀ fault, ending ≠ .result (.error (.violation fault))) ∧
      ∀ endpoint line answer t, Console.turn endpoint s line = .next (some answer) t →
        t.now + settings.idleTimeoutSecs.toNat * 1000 < clockReach →
        Command.reported? answer ≠ some (.string "internal_invariant_violation")) := by
  have sturdy {u : State} (run : Run (start settings.policy connector) u) : u.Sturdy :=
    Reachable.sturdy ⟨_, _, run⟩ (run.later.connector ▸ sound)
  have policy {u : State} (run : Run (start settings.policy connector) u) :
      u.policy = settings.policy := run.later.policy
  refine ⟨fun time w died ↦ ?_, fun c x found past ↦ ?_, fun c x fault ↦ (sturdy run).stopped,
    after_lt_clockReach, fun small ↦ ⟨fun reach ↦ ?_, fun endpoint line answer t next reach told ↦ ?_⟩⟩
  · have deaths := (sturdy run).deaths died
    rw [policy run] at deaths
    exact deaths
  · have large := (sturdy run).crashed found past
    rw [policy run] at large
    exact large
  · exact (sturdy run).unharmed (by rw [policy run]; exact small) (by rw [policy run]; exact reach)
  · obtain ⟨turns, tells⟩ := Console.turn_run next
    have after := run.trans turns
    have unharmed := (sturdy after).unharmed (by rw [policy after]; exact small)
      (by rw [policy after]; exact reach)
    rcases tells answer rfl with ⟨fault, rfl⟩ | tells
    · rw [Command.reported?_refused] at told
      exact absurd (Json.Value.string.inj (Option.some.inj told)) (by decide)
    · cases tells with
      | success v => exact absurd told (by rw [Command.reported?_success]; simp)
      | notFound key =>
        rw [Command.reported?_failed] at told
        exact absurd (Json.Value.string.inj (Option.some.inj told)) (by simp [Failure.kind])
      | failed found past =>
        rw [Command.reported?_failed] at told
        obtain ⟨fault, rfl⟩ :=
          Failure.violation_of_kind (Json.Value.string.inj (Option.some.inj told))
        exact (unharmed.2 _ _ _ found past).2 fault rfl

/-- The worker that a first call brings about is alive after the call under the default settings. -/
theorem Settings.survives_default :
    ∃ y, ((start ({} : Settings).policy .direct).call
        { key := "treasury", request := trialGenerate "memory://main" }).2.workers.get? 0 = some y ∧
      y.activity ≠ .died := by
  have run := Run.call (start ({} : Settings).policy .direct) "treasury"
    (trialGenerate "memory://main")
  have survives := Settings.survives {} Ledger.Connector.direct_sound run
  have alive := ((survives.2.2.2.2 (by decide)).1 (by decide +kernel)).1
  exact ⟨_, rfl, alive 0 _ rfl⟩

/-- There are settings that the program accepts and with which it answers a line with a violation,
because the end of an idle window lies beyond what the clock can name. -/
theorem Settings.accepted_unsafe :
    ∃ words line settings, Settings.read words [] = .ok settings ∧ settings.validate = .ok () ∧
      ∃ answer, Console.program words [] line = ([answer], .done) ∧
        Command.reported? answer = some (.string "internal_invariant_violation") := by
  refine ⟨["--idle-timeout-secs", "18446744073709551615"],
    Bytes.ofText ("generate k " ++ String.ofList (List.replicate 64 '1')), _, rfl, rfl,
    Command.failed (.violation (.workerStopped "k" .generate)), ?_, Command.reported?_failed _⟩
  rfl

end Signatory
