import Signatory.Proofs.Identity
import Signatory.Proofs.Service.Answers

/-!
# The numbers that a worker allots

The sequence number of a worker is a function of what the worker has answered so far. A successful
generation sets it, a signature takes it and moves on to the next, a synchronisation that adopts a
number moves on to that one, and every other answer leaves it alone. The greatest number is never
taken, so the numbers of one identity only ever grow.
-/

namespace Signatory.Service

/-- Whether an answer changes the identity of the worker that gives it. -/
def moves : Result → Bool
  | .ok (.generated _) => true
  | .ok (.signed _) => true
  | .ok (.synced (.adopted _ _)) => true
  | _ => false

/-- Whether an answer is a signature. -/
def signs : Result → Bool
  | .ok (.signed _) => true
  | _ => false

/-- The sequence number after an answer, given the one before; `initial` tells with which number
each caller's identity begins. -/
def numberAfter (initial : CallerId → Option Nat) (n : Option Nat) : CallerId × Result → Option Nat
  | (c, .ok (.generated _)) => initial c
  | (_, .ok (.signed _)) => n.map (· + 1)
  | (_, .ok (.synced (.adopted _ remote))) => some remote.toNat
  | _ => n

/-- What an answer tells is true of the sequence number before it. -/
def Tells (initial : CallerId → Option Nat) (n : Option Nat) : CallerId × Result → Prop
  | (c, .ok (.generated _)) => (initial c).isSome
  | (_, .ok (.signed tx)) => n = some tx.nonce.toNat ∧ tx.nonce.toNat < 2 ^ 64 - 1
  | (_, .ok (.synced (.adopted previous remote))) =>
    n = some previous.toNat ∧ previous.toNat < remote.toNat
  | (_, .ok (.synced (.unchanged k remote))) => n = some k.toNat ∧ remote.toNat ≤ k.toNat
  | (_, .ok (.nonce k)) => n = some k.toNat
  | (_, .ok (.status status)) => n = some status.sequenceNumber.toNat
  | _ => True

/-- Some answers, the earliest first, are true one after the other. -/
def Follows (initial : CallerId → Option Nat) : Option Nat → List (CallerId × Result) → Prop
  | _, [] => True
  | n, a :: later => Tells initial n a ∧ Follows initial (numberAfter initial n a) later

/-- The signatures among some answers: for whom each was made, and its number. -/
def signatures (answers : List (CallerId × Result)) : List (CallerId × Nat) :=
  answers.filterMap fun
    | (c, .ok (.signed tx)) => some (c, tx.nonce.toNat)
    | _ => none

/-- The numbers that the signatures among some results take, if the first one may take `n`. Only a
signature uses a number up, and only a synchronisation that adopts a number skips any. -/
def allotted : Nat → List Result → List Nat
  | _, [] => []
  | n, .ok (.signed _) :: later => n :: allotted (n + 1) later
  | _, .ok (.synced (.adopted _ remote)) :: later => allotted remote.toNat later
  | n, _ :: later => allotted n later

section Answers

variable {initial other : CallerId → Option Nat} {n : Option Nat}
  {answers later : List (CallerId × Result)}

/-- Answers are true one after the other if the first ones are and then the others. -/
theorem follows_append :
    Follows initial n (answers ++ later) ↔
      Follows initial n answers ∧
        Follows initial (answers.foldl (numberAfter initial) n) later := by
  induction answers generalizing n with
  | nil => simp [Follows]
  | cons a rest ih =>
    rw [List.cons_append, Follows, Follows, ih, List.foldl_cons, and_assoc]

/-- To know more about how identities begin changes nothing in what is true. -/
theorem Tells.mono (more : ∀ c k, initial c = some k → other c = some k)
    {a : CallerId × Result} (h : Tells initial n a) :
    Tells other n a ∧ numberAfter other n a = numberAfter initial n a := by
  obtain ⟨c, failure | response⟩ := a
  · exact ⟨trivial, rfl⟩
  · cases response with
    | generated =>
      obtain ⟨k, begins⟩ := Option.isSome_iff_exists.mp h
      have begins' := more c k begins
      exact ⟨Option.isSome_iff_exists.mpr ⟨k, begins'⟩, begins'.trans begins.symm⟩
    | synced outcome => cases outcome <;> exact ⟨h, rfl⟩
    | _ => exact ⟨h, rfl⟩

/-- To know more about how identities begin changes nothing in what is true of several answers. -/
theorem Follows.mono (more : ∀ c k, initial c = some k → other c = some k)
    (h : Follows initial n answers) :
    Follows other n answers ∧
      answers.foldl (numberAfter other) n = answers.foldl (numberAfter initial) n := by
  induction answers generalizing n with
  | nil => exact ⟨trivial, rfl⟩
  | cons a rest ih =>
    have ⟨tells, same⟩ := h.1.mono more
    have ⟨follows, fold⟩ := ih h.2
    rw [Follows, List.foldl_cons, List.foldl_cons, same]
    exact ⟨⟨tells, follows⟩, fold⟩

/-- An answer that leaves the sequence number alone allots none. -/
private theorem skip_answer {c : CallerId} {r : Result} {k : Nat} (keeps : moves r = false) :
    numberAfter initial n (c, r) = n ∧ signatures ((c, r) :: later) = signatures later ∧
      allotted k (r :: later.map (·.2)) = allotted k (later.map (·.2)) := by
  cases r with
  | error failure => exact ⟨rfl, rfl, rfl⟩
  | ok response =>
    cases response with
    | generated => exact absurd keeps (by simp [moves])
    | signed => exact absurd keeps (by simp [moves])
    | synced outcome =>
      cases outcome with
      | adopted => exact absurd keeps (by simp [moves])
      | unchanged => exact ⟨rfl, rfl, rfl⟩
    | _ => exact ⟨rfl, rfl, rfl⟩

/-- Signatures between which no identity is generated and no number is adopted take one number after
the other, beginning with the current one. -/
theorem Follows.contiguous (h : Follows initial n answers)
    (only : ∀ a ∈ answers, moves a.2 = true → signs a.2 = true) :
    ∃ k, (signatures answers).map (·.2) = List.range' k (signatures answers).length ∧
      (signatures answers ≠ [] → n = some k) := by
  induction answers generalizing n with
  | nil => exact ⟨0, rfl, fun some ↦ absurd rfl some⟩
  | cons a rest ih =>
    obtain ⟨c, r⟩ := a
    obtain ⟨tells, follows⟩ := h
    obtain ⟨k, numbers, first⟩ := ih follows fun a inside ↦ only a (List.mem_cons_of_mem _ inside)
    cases kind : moves r with
    | false =>
      have skipped : numberAfter initial n (c, r) = n ∧
          signatures ((c, r) :: rest) = signatures rest ∧
          allotted k (r :: rest.map (·.2)) = allotted k (rest.map (·.2)) := skip_answer kind
      rw [skipped.1] at first
      rw [skipped.2.1]
      exact ⟨k, numbers, first⟩
    | true =>
      match r, only _ List.mem_cons_self kind with
      | .ok (.signed tx), _ =>
        refine ⟨tx.nonce.toNat, ?_, fun _ ↦ tells.1⟩
        change tx.nonce.toNat :: (signatures rest).map (·.2) =
          List.range' tx.nonce.toNat ((signatures rest).length + 1)
        rw [List.range'_succ, numbers]
        by_cases last : signatures rest = []
        · rw [last]
          rfl
        · have next : n.map (· + 1) = some k := first last
          rw [tells.1] at next
          rw [← Option.some.inj next]

end Answers

/-- The sequence number of an identity, if there is one. -/
def number? (identity : Option Identity) : Option Nat :=
  identity.map (·.sequenceNumber.toNat)

namespace State

/-- The number that the identity begins with which a caller asks for. -/
def initial (s : State) (c : CallerId) : Option Nat :=
  (s.callers.get? c).bind fun x ↦
    match x.request with
    | .generate k => some k.sequenceNumber.toNat
    | _ => none

variable {s t : State} {τ : Task} {w v : WorkerId} {worker y z : Worker} {e : Envelope}
  {r : Result} {identity : Option Identity}

/-- What a caller is answered is true of the identity before it, and the identity after it has the
number to which the answer moves on. -/
def Accords (initial : CallerId → Option Nat) (before : Option Identity) (c : CallerId)
    (done : Result × Option Identity) : Prop :=
  Tells initial (number? before) (c, done.1) ∧
    number? done.2 = numberAfter initial (number? before) (c, done.1)

section Accords

variable {initial : CallerId → Option Nat} {c : CallerId} {before : Option Identity} {key : String}

/-- A failure that leaves the identity alone moves no number. -/
theorem accords_error (fault : Failure) : Accords initial before c (.error fault, before) :=
  ⟨trivial, rfl⟩

/-- A signature takes the number of the identity, which moves on by one. -/
theorem accords_handleSign (d : Draft) : Accords initial before c (handleSign key before d) := by
  cases before with
  | none => exact accords_error _
  | some i =>
    cases made : i.signNext d with
    | error fault =>
      simp only [handleSign, made]
      exact accords_error _
    | ok signed =>
      obtain ⟨tx, next⟩ := signed
      simp only [handleSign, made]
      obtain ⟨early, -, rfl⟩ := i.signNext_ok made
      have succ := Identity.succ_toNat early
      have bound := (i.sequenceNumber + 1).toNat_lt
      have taken := Identity.nonce_of_signNext made
      refine ⟨⟨congrArg (fun n : UInt64 ↦ some n.toNat) taken.symm, ?_⟩, congrArg some succ⟩
      rw [taken]
      omega

/-- A query tells the number and moves none. -/
theorem accords_handleQuery (q : Query) : Accords initial before c (handleQuery key before q) := by
  cases before with
  | none => exact accords_error _
  | some i =>
    cases q with
    | address => exact ⟨trivial, rfl⟩
    | nonce => exact ⟨rfl, rfl⟩
    | status => exact ⟨rfl, rfl⟩

/-- A synchronisation that comes to an end moves to the number that it adopts, if to any. -/
theorem accords_handleAnswer {settings : SyncSettings} {i next : Identity} {attempt : Nat}
    {answer : Except Ledger.Fault UInt64} {r : Result}
    (decided : handleAnswer settings i attempt answer = (some r, next)) :
    Accords initial (some i) c (r, some next) := by
  cases answer with
  | ok remote =>
    rw [handleAnswer_ok] at decided
    obtain ⟨outcome, rfl⟩ := Prod.mk.inj decided
    obtain rfl := Option.some.inj outcome
    rcases i.adopt_eq remote with ⟨ahead, adopted⟩ | ⟨behind, unchanged⟩
    · rw [adopted]
      exact ⟨⟨rfl, ahead⟩, rfl⟩
    · rw [unchanged]
      exact ⟨⟨rfl, behind⟩, rfl⟩
  | error fault =>
    rw [handleAnswer_error] at decided
    obtain ⟨ended, rfl⟩ := Prod.mk.inj decided
    split at ended
    next => exact absurd ended (by simp)
    next =>
      obtain rfl := Option.some.inj ended
      exact accords_error _

end Accords

/-- What an answer to an envelope tells is true of the identity that the worker had, and the answer
moves its number on. -/
theorem Answers.tells (answers : Answers s worker e (r, identity))
    (asked : ∀ k outcome alarm, worker.activity = .connecting e k outcome alarm →
      s.initial e.caller = some k.sequenceNumber.toNat) :
    Tells s.initial (number? worker.identity) (e.caller, r) ∧
      number? identity = numberAfter s.initial (number? worker.identity) (e.caller, r) := by
  change Accords s.initial worker.identity e.caller (r, identity)
  generalize (r, identity) = done at answers ⊢
  cases answers with
  | misrouted => exact accords_error _
  | served serves =>
    generalize e.request = request at serves
    cases serves with
    | sign d => exact accords_handleSign d
    | query q => exact accords_handleQuery q
    | sync unknown => exact unknown ▸ accords_error _
  | finished finishes =>
    cases finishes with
    | refused => exact accords_error _
    | connected connecting =>
      have begins := asked _ _ _ connecting
      exact ⟨Option.isSome_iff_exists.mpr ⟨_, begins⟩, begins.symm⟩
    | unknown _ _ unknown => exact unknown ▸ accords_error _
    | synced _ _ known decided => exact known ▸ accords_handleAnswer decided

/-- An answer that moves no number leaves the whole identity alone. -/
theorem Answers.keeps (answers : Answers s worker e (r, identity)) (still : moves r = false) :
    identity = worker.identity := by
  cases answers with
  | misrouted => rfl
  | served serves =>
    generalize e.request = request at serves
    generalize done : (r, identity) = answer at serves
    cases serves with
    | sign d =>
      unfold handleSign at done
      split at done
      next unknown => exact (Prod.mk.inj done).2.trans unknown.symm
      next i known =>
        split at done
        next => exact (Prod.mk.inj done).2.trans known.symm
        next => exact absurd still (by rw [(Prod.mk.inj done).1]; simp [moves])
    | query q =>
      unfold handleQuery at done
      split at done
      next unknown => exact (Prod.mk.inj done).2.trans unknown.symm
      next i known => exact (Prod.mk.inj done).2.trans known.symm
    | sync unknown => exact (Prod.mk.inj done).2.trans unknown.symm
  | finished finishes =>
    generalize done : (r, identity) = answer at finishes
    cases finishes with
    | refused => exact (Prod.mk.inj done).2
    | connected => exact absurd still (by rw [(Prod.mk.inj done).1]; simp [moves])
    | unknown _ _ unknown => exact (Prod.mk.inj done).2.trans unknown.symm
    | @synced attempt alarm i next result syncing due known decided =>
      obtain ⟨rfl, rfl⟩ := Prod.mk.inj done
      rw [known]
      generalize (s.lookup i.ledger i.address).1 = answer at decided
      cases answer with
      | ok remote =>
        rw [handleAnswer_ok] at decided
        obtain ⟨outcome, rfl⟩ := Prod.mk.inj decided
        obtain rfl := Option.some.inj outcome
        rcases i.adopt_eq remote with ⟨-, adopted⟩ | ⟨-, unchanged⟩
        · exact absurd still (by rw [adopted]; simp [moves])
        · rw [unchanged]
      | error fault =>
        rw [handleAnswer_error] at decided
        rw [← (Prod.mk.inj decided).2]

/-- What a worker does because of a request: it connects because it was asked for an identity, and
it makes a lookup because it was asked to synchronise. -/
inductive Apt (connector : Ledger.Connector) : Activity → Prop
  | idle : Apt connector .idle
  | connecting {e : Envelope} {k : Credentials} {alarm : Alarm} (request : e.request = .generate k) :
    Apt connector (.connecting e k (connector k.endpoint).outcome alarm)
  | syncing {e : Envelope} {attempt : Nat} {alarm : Alarm} (request : e.request = .syncNonce) :
    Apt connector (.syncing e attempt alarm)
  | left (reason : ExitReason) : Apt connector (.left reason)
  | died : Apt connector .died

/-- Every worker does what it was asked to. -/
def Asked (connector : Ledger.Connector) (workers : Table Worker) : Prop :=
  ∀ w y, workers.get? w = some y → Apt connector y.activity

section Asking

variable {connector : Ledger.Connector} {workers : Table Worker}

/-- A worker may do something else that it is asked to. -/
theorem Asked.set (h : Asked connector workers) (found : workers.get? v = some y)
    (apt : Apt connector z.activity) : Asked connector (workers.set v z) := by
  intro w x there
  rcases Table.of_set found there with ⟨-, rfl⟩ | ⟨-, there⟩
  · exact apt
  · exact h w x there

/-- A worker may go on with what it does. -/
theorem Asked.same (h : Asked connector workers) (found : workers.get? v = some y)
    (activity : z.activity = y.activity) : Asked connector (workers.set v z) :=
  h.set found (activity ▸ h v y found)

/-- A worker connects only because it was asked for an identity, and to where it was asked to. -/
theorem Asked.connects {k : Credentials} {outcome : Ledger.Connection} {alarm : Alarm}
    (h : Asked connector workers) (found : workers.get? w = some y)
    (connecting : y.activity = .connecting e k outcome alarm) :
    e.request = .generate k ∧ outcome = (connector k.endpoint).outcome := by
  have apt := h w y found
  rw [connecting] at apt
  cases apt with
  | connecting request => exact ⟨request, rfl⟩

/-- A worker makes lookups only because it was asked to synchronise. -/
theorem Asked.syncs {attempt : Nat} {alarm : Alarm} (h : Asked connector workers)
    (found : workers.get? w = some y) (syncing : y.activity = .syncing e attempt alarm) :
    e.request = .syncNonce := by
  have apt := h w y found
  rw [syncing] at apt
  cases apt with
  | syncing request => exact request

end Asking

/-- Every change leaves it so that a worker does what it was asked to. -/
theorem Change.asked (h : Asked s.connector s.workers) (change : Change s τ t) :
    Asked t.connector t.workers := by
  cases change with
  | leave found => exact h.set found (.left _)
  | die found => exact h.set found .died
  | skip takes => exact h.same takes.found (by rfl)
  | misroute takes => exact h.same takes.found (by rfl)
  | connect accepts request => exact h.set accepts.found (.connecting request)
  | lookup accepts request => exact h.set accepts.found (.syncing request)
  | serve accepts => exact h.set accepts.found .idle
  | finish found => exact h.set found .idle
  | again found syncing => exact h.set found (.syncing (h.syncs found syncing))
  | spawn =>
    intro w y there
    rcases Table.of_push there with ⟨-, rfl, -⟩ | there
    · exact .idle
    · exact h w y there
  | push offers found => exact h.same found (by rfl)
  | suspend offers found => exact h.same found (by rfl)
  | occupy known suspended found => exact h.same found (by rfl)
  | withdraw =>
    intro w y there
    obtain ⟨x, found, ⟨-, rfl⟩ | ⟨-, rfl⟩⟩ := Table.of_update there
    · exact h w x found
    · exact h w y found
  | _ => exact h

/-- Every use leaves it so that a worker does what it was asked to. -/
theorem Use.asked (h : Asked s.connector s.workers) (use : Use s t) :
    Asked t.connector t.workers := by
  rw [use.later.connector]
  intro w y there
  obtain ⟨old, found, rfl | rfl⟩ := use.of_worker there
  · exact h w _ found
  · exact h w old found

/-- The answers of every worker are true one after the other, and its sequence number is what they
come to. -/
structure Numbered (s : State) : Prop where
  owned : Owned s.workers s.callers
  asked : Asked s.connector s.workers
  follows : ∀ w, Follows s.initial none (s.history w)
  current : ∀ w, number? (s.identity? w) = (s.history w).foldl (numberAfter s.initial) none

/-- With which number an identity begins never changes. -/
theorem Later.initial (later : s.Later t) {c : CallerId} {k : Nat} (begins : s.initial c = some k) :
    t.initial c = some k := by
  unfold State.initial at begins ⊢
  obtain ⟨x, found, request⟩ := Option.bind_eq_some_iff.mp begins
  obtain ⟨x', found', same⟩ := later.callers c x found
  rw [found', Option.bind_some, same.request]
  exact request

/-- The answers so far stay true when nothing but more callers become known. -/
theorem Numbered.of_silent (h : s.Numbered) (later : s.Later t)
    (silent : t.history w = s.history w ∧ t.identity? w = s.identity? w) :
    Follows t.initial none (t.history w) ∧
      number? (t.identity? w) = (t.history w).foldl (numberAfter t.initial) none := by
  have ⟨follows, same⟩ := (h.follows w).mono fun _ _ ↦ later.initial
  rw [silent.1, silent.2, same]
  exact ⟨follows, h.current w⟩

/-- Every change leaves the sequence numbers what the answers come to. -/
theorem Change.numbered (h : s.Numbered) (change : Change s τ t) : t.Numbered := by
  have step (w : WorkerId) : Follows t.initial none (t.history w) ∧
      number? (t.identity? w) = (t.history w).foldl (numberAfter t.initial) none := by
    cases change.told w with
    | silent history identity => exact h.of_silent change.later ⟨history, identity⟩
    | @told worker e r found inside answers history =>
      have known : s.identity? w = worker.identity := by
        rw [identity?, found]
        rfl
      have begins (k : Credentials) (outcome : Ledger.Connection) (alarm : Alarm)
          (connecting : worker.activity = .connecting e k outcome alarm) :
          s.initial e.caller = some k.sequenceNumber.toNat := by
        obtain ⟨x, asker, -, request⟩ := h.owned.carried found inside
        rw [(h.asked.connects found connecting).1] at request
        rw [State.initial, asker, Option.bind_some, request]
      obtain ⟨tells, moved⟩ := answers.tells begins
      rw [← known, h.current w] at tells moved
      have all : Follows s.initial none (t.history w) := by
        rw [history, follows_append]
        exact ⟨h.follows w, tells, trivial⟩
      obtain ⟨follows, same⟩ := all.mono fun _ _ ↦ change.later.initial
      refine ⟨follows, ?_⟩
      rw [same, history, List.foldl_append]
      exact moved
  exact ⟨change.owned h.owned, change.asked h.asked, fun w ↦ (step w).1, fun w ↦ (step w).2⟩

/-- Every use leaves the sequence numbers what the answers come to. -/
theorem Use.numbered (h : s.Numbered) (use : Use s t) : t.Numbered where
  owned := use.owned h.owned
  asked := use.asked h.asked
  follows := fun w ↦ (h.of_silent use.later (use.silent w)).1
  current := fun w ↦ (h.of_silent use.later (use.silent w)).2

/-- No worker has answered anything at the start. -/
theorem numbered_start (policy : Policy) (connector : Ledger.Connector) :
    (start policy connector).Numbered where
  owned := owned_start policy connector
  asked := fun w y found ↦ by simp [start] at found
  follows := fun w ↦ trivial
  current := by
    intro w
    have none : (start policy connector).workers.get? w = none := Table.get?_empty w
    show number? (((start policy connector).workers.get? w).bind (·.identity)) = Option.none
    rw [none]
    rfl

/-- The sequence number of every worker is what its answers come to, in every state that can come
about. -/
theorem Reachable.numbered (h : s.Reachable) : s.Numbered := by
  have kept := Reachable.invariant (P := Numbered) numbered_start (fun h change ↦ change.numbered h)
    (fun h use ↦ use.numbered h) h
  exact ⟨kept.owned, kept.asked, kept.follows, kept.current⟩

end State

end Signatory.Service
