import Signatory.Proofs.Identity
import Signatory.Service.Policy

/-!
# One request after the other

What a worker comes to if schedules, mailboxes and waits are left out: a function that serves one
request after the other and carries an identity along. What ledgers answer to lookups is read from a
list. The function has no result if the list is too short, or if a connector crashes.
-/

namespace Signatory.Service

/-- What a ledger answers to a lookup. -/
abbrev Answer := Except Ledger.Fault UInt64

/-- Who serves the requests for a key: what connects to ledgers and how numbers are synchronised. -/
structure Clerk where
  key : String
  connector : Ledger.Connector
  sync : SyncSettings

namespace Clerk

/-- Synchronise by lookups until one of them decides; `attempt` is the number of the first. -/
def consult (k : Clerk) (i : Identity) :
    (attempt : Nat) → List Answer → Option ((Result × Option Identity) × List Answer)
  | _, [] => none
  | attempt, answer :: answers =>
    match handleAnswer k.sync i attempt answer with
    | (some r, next) => some ((r, some next), answers)
    | (none, _) => k.consult i (attempt + 1) answers

/-- Serve one request. -/
def serve (k : Clerk) (identity : Option Identity) (answers : List Answer) :
    Request → Option ((Result × Option Identity) × List Answer)
  | .generate c =>
    match (k.connector c.endpoint).outcome with
    | .crash => none
    | .refused fault => some ((.error (.ledger fault), identity), answers)
    | .place place => some (handleConnected c place, answers)
  | .sign d => some (handleSign k.key identity d, answers)
  | .query q => some (handleQuery k.key identity q, answers)
  | .syncNonce =>
    match identity with
    | none => some ((.error (.notInitialized k.key), none), answers)
    | some i => k.consult i 1 answers

/-- Serve some requests, one after the other. -/
def work (k : Clerk) : Option Identity → List Answer → List Request →
    Option ((List Result × Option Identity) × List Answer)
  | identity, answers, [] => some (([], identity), answers)
  | identity, answers, q :: qs =>
    (k.serve identity answers q).bind fun (done, answers) ↦
      (k.work done.2 answers qs).map fun (more, answers) ↦ ((done.1 :: more.1, more.2), answers)

variable {k : Clerk} {i : Identity} {identity : Option Identity} {answers rest more : List Answer}
  {attempt : Nat} {q : Request} {qs before after : List Request} {done : Result × Option Identity}
  {all : List Result × Option Identity}

/-- Further answers are left for later. -/
theorem consult_append (h : k.consult i attempt answers = some (done, rest)) (more : List Answer) :
    k.consult i attempt (answers ++ more) = some (done, rest ++ more) := by
  induction answers generalizing attempt with
  | nil => exact absurd h (by simp [consult])
  | cons answer answers ih =>
    unfold consult at h
    rw [List.cons_append, consult]
    split at h
    next r next decided =>
      obtain ⟨rfl, rfl⟩ := Prod.mk.inj (Option.some.inj h)
      rfl
    next => exact ih h

/-- Ledgers are asked nothing but for the synchronisation of an identity: what comes of anything
else is the same whatever they would answer. -/
theorem serve_cases (k : Clerk) (identity : Option Identity) (q : Request) :
    (∃ outcome : Option (Result × Option Identity),
      ∀ answers, k.serve identity answers q = outcome.map fun done ↦ (done, answers)) ∨
      ∃ i, identity = some i ∧ q = .syncNonce := by
  cases q with
  | generate c =>
    refine .inl ?_
    cases connection : (k.connector c.endpoint).outcome with
    | crash => exact ⟨none, fun _ ↦ by rw [serve, connection]; rfl⟩
    | refused fault => exact ⟨some _, fun _ ↦ by rw [serve, connection]; rfl⟩
    | place place => exact ⟨some _, fun _ ↦ by rw [serve, connection]; rfl⟩
  | sign d => exact .inl ⟨some _, fun _ ↦ rfl⟩
  | query query => exact .inl ⟨some _, fun _ ↦ rfl⟩
  | syncNonce =>
    cases identity with
    | none => exact .inl ⟨some _, fun _ ↦ rfl⟩
    | some i => exact .inr ⟨i, rfl, rfl⟩

theorem serve_append (h : k.serve identity answers q = some (done, rest)) (more : List Answer) :
    k.serve identity (answers ++ more) q = some (done, rest ++ more) := by
  rcases k.serve_cases identity q with ⟨outcome, same⟩ | ⟨i, rfl, rfl⟩
  · rw [same] at h ⊢
    obtain ⟨done', rfl, left⟩ := Option.map_eq_some_iff.mp h
    obtain ⟨rfl, rfl⟩ := Prod.mk.inj left
    rfl
  · exact consult_append h more

/-- What several requests come to is what the first comes to, and then the others. -/
theorem work_cons : k.work identity answers (q :: qs) = some (all, rest) ↔
    ∃ done left others, k.serve identity answers q = some (done, left) ∧
      k.work done.2 left qs = some ((others, all.2), rest) ∧ all.1 = done.1 :: others := by
  rw [work, Option.bind_eq_some_iff]
  constructor
  · rintro ⟨⟨done, left⟩, served, worked⟩
    obtain ⟨⟨later, left'⟩, finished, same⟩ := Option.map_eq_some_iff.mp worked
    obtain ⟨rfl, rfl⟩ := Prod.mk.inj same
    exact ⟨done, left, later.1, served, finished, rfl⟩
  · rintro ⟨done, left, others, served, worked, results⟩
    refine ⟨(done, left), served, ?_⟩
    dsimp only
    rw [worked, Option.map_some, ← results]

theorem work_append (h : k.work identity answers qs = some (all, rest)) (more : List Answer) :
    k.work identity (answers ++ more) qs = some (all, rest ++ more) := by
  induction qs generalizing identity answers all with
  | nil =>
    obtain ⟨rfl, rfl⟩ := Prod.mk.inj (Option.some.inj h)
    rfl
  | cons q qs ih =>
    obtain ⟨done, left, others, served, worked, results⟩ := work_cons.mp h
    exact work_cons.mpr ⟨done, _, others, serve_append served more, ih worked, results⟩

/-- A synchronisation uses up the answers that it is given, and leaves the others. -/
theorem consult_uses (h : k.consult i attempt answers = some (done, rest)) :
    ∃ used, answers = used ++ rest ∧ k.consult i attempt used = some (done, []) := by
  induction answers generalizing attempt with
  | nil => exact absurd h (by simp [consult])
  | cons answer answers ih =>
    unfold consult at h
    split at h
    next r next decided =>
      obtain ⟨rfl, rfl⟩ := Prod.mk.inj (Option.some.inj h)
      refine ⟨[answer], rfl, ?_⟩
      rw [consult, decided]
    next undecided =>
      obtain ⟨used, split, served⟩ := ih h
      refine ⟨answer :: used, congrArg _ split, ?_⟩
      rw [consult, undecided]
      exact served

theorem serve_uses (h : k.serve identity answers q = some (done, rest)) :
    ∃ used, answers = used ++ rest ∧ k.serve identity used q = some (done, []) := by
  rcases k.serve_cases identity q with ⟨outcome, same⟩ | ⟨i, rfl, rfl⟩
  · rw [same] at h
    obtain ⟨done', rfl, left⟩ := Option.map_eq_some_iff.mp h
    obtain ⟨rfl, rfl⟩ := Prod.mk.inj left
    exact ⟨[], rfl, same []⟩
  · exact consult_uses h

/-- Several requests use up the answers that they are given, and leave the others. -/
theorem work_uses (h : k.work identity answers qs = some (all, rest)) :
    ∃ used, answers = used ++ rest ∧ k.work identity used qs = some (all, []) := by
  induction qs generalizing identity answers all with
  | nil =>
    obtain ⟨rfl, rfl⟩ := Prod.mk.inj (Option.some.inj h)
    exact ⟨[], rfl, rfl⟩
  | cons q qs ih =>
    obtain ⟨done, left, others, served, worked, results⟩ := work_cons.mp h
    obtain ⟨used, rfl, alone⟩ := serve_uses served
    obtain ⟨more, rfl, apart⟩ := ih worked
    refine ⟨used ++ more, (List.append_assoc _ _ _).symm, ?_⟩
    exact work_cons.mpr ⟨done, more, others, serve_append alone more, apart, results⟩

/-- Requests in two parts come to what the first part comes to, and then the second. -/
theorem work_parts : k.work identity answers (before ++ after) = some (all, rest) ↔
    ∃ first i left others, k.work identity answers before = some ((first, i), left) ∧
      k.work i left after = some ((others, all.2), rest) ∧ all.1 = first ++ others := by
  induction before generalizing identity answers all with
  | nil =>
    constructor
    · exact fun worked ↦ ⟨[], identity, answers, all.1, rfl, worked, rfl⟩
    · rintro ⟨first, i, left, others, begun, worked, results⟩
      obtain ⟨same, rfl⟩ := Prod.mk.inj (Option.some.inj begun)
      obtain ⟨rfl, rfl⟩ := Prod.mk.inj same
      rw [List.nil_append] at results
      rw [← results] at worked
      exact worked
  | cons q before ih =>
    rw [List.cons_append, work_cons]
    constructor
    · rintro ⟨done, left, others, served, worked, results⟩
      obtain ⟨first, i, left', others', begun, ended, results'⟩ := ih.mp worked
      obtain rfl : others = first ++ others' := results'
      refine ⟨done.1 :: first, i, left', others', ?_, ended, results⟩
      exact work_cons.mpr ⟨done, left, first, served, begun, rfl⟩
    · rintro ⟨first, i, left, others, begun, ended, results⟩
      obtain ⟨done, left', first', served, worked, rfl⟩ := work_cons.mp begun
      have rejoined : k.work done.2 left' (before ++ after) =
          some ((first' ++ others, all.2), rest) :=
        ih.mpr ⟨first', i, left, others, worked, ended, rfl⟩
      exact ⟨done, left', first' ++ others, served, rejoined, results⟩

/-- Every request has one result. -/
theorem length_of_work (h : k.work identity answers qs = some (all, rest)) :
    all.1.length = qs.length := by
  induction qs generalizing identity answers all with
  | nil =>
    obtain ⟨rfl, rfl⟩ := Prod.mk.inj (Option.some.inj h)
    rfl
  | cons q qs ih =>
    obtain ⟨done, left, others, served, worked, results⟩ := work_cons.mp h
    rw [results, List.length_cons, List.length_cons, ih worked]

/-- One more request is served after the others. -/
theorem work_concat (h : k.work identity answers qs = some (all, rest))
    (served : k.serve all.2 rest q = some (done, more)) :
    k.work identity answers (qs ++ [q]) = some ((all.1 ++ [done.1], done.2), more) :=
  work_parts.mpr ⟨all.1, all.2, rest, [done.1], h, work_cons.mpr ⟨done, more, [], served, rfl, rfl⟩,
    rfl⟩

end Clerk

/-- What may come of a request: the answer to it, and the identity that it leaves. A generation that
succeeds replaces the identity, a signature takes one number, a synchronisation moves on to what the
ledger says if that is more, and whatever else happens leaves the identity as it was. Before there
is an identity nothing but a generation succeeds. -/
inductive Deed (k : Clerk) (identity : Option Identity) (answers : List Answer) :
    Request → Result × Option Identity → Prop
  | generated {c : Credentials} {place : Ledger.Place}
    (connected : (k.connector c.endpoint).outcome = .place place) :
    Deed k identity answers (.generate c)
      (.ok (.generated (Address.ofPublicKey (SigningKey.ofPrivateKey c.privateKey).publicKey)),
        some (.make c.privateKey c.algorithm place c.endpoint c.sequenceNumber))
  | refused {c : Credentials} {fault : Ledger.Fault}
    (refused : (k.connector c.endpoint).outcome = .refused fault) :
    Deed k identity answers (.generate c) (.error (.ledger fault), identity)
  | signed {d : Draft} {i : Identity} {signed : SignedTransaction} (known : identity = some i)
    (early : i.sequenceNumber ≠ Identity.lastNumber)
    (made : i.sign (d.withNonce i.sequenceNumber) = .ok signed)
    (number : signed.nonce = i.sequenceNumber) :
    Deed k identity answers (.sign d)
      (.ok (.signed signed), some { i with sequenceNumber := i.sequenceNumber + 1 })
  | unsigned {d : Draft} {i : Identity} {fault : SigningFault} (known : identity = some i) :
    Deed k identity answers (.sign d) (.error (.signing fault), identity)
  | synced {i : Identity} {remote : UInt64} {outcome : Outcome} (known : identity = some i)
    (answered : .ok remote ∈ answers)
    (number : outcome.sequenceNumber = max i.sequenceNumber remote) :
    Deed k identity answers .syncNonce
      (.ok (.synced outcome), some { i with sequenceNumber := max i.sequenceNumber remote })
  | unsynced {i : Identity} {fault : Ledger.Fault} (known : identity = some i)
    (answered : .error fault ∈ answers) :
    Deed k identity answers .syncNonce (.error (.syncFailed k.sync.attempts fault), identity)
  | told {i : Identity} {query : Query} (known : identity = some i) :
    Deed k identity answers (.query query) (.ok (answerQuery k.key i query), identity)
  | unknown {q : Request} (unknown : identity = none) (other : ∀ c, q ≠ .generate c) :
    Deed k identity answers q (.error (.notInitialized k.key), identity)

section Deeds

variable {k : Clerk} {i : Identity} {identity : Option Identity} {answers rest : List Answer}
  {attempt : Nat} {q : Request} {done : Result × Option Identity}

/-- To adopt a number is to move on to it if it is greater. -/
theorem adopt_max (i : Identity) (remote : UInt64) :
    (i.adopt remote).1.sequenceNumber = max i.sequenceNumber remote ∧
      (i.adopt remote).2 = { i with sequenceNumber := max i.sequenceNumber remote } := by
  have greatest : max i.sequenceNumber remote =
      if i.sequenceNumber ≤ remote then remote else i.sequenceNumber := rfl
  rcases i.adopt_eq remote with ⟨ahead, adopted⟩ | ⟨behind, unchanged⟩
  · rw [greatest, if_pos (UInt64.le_of_lt ahead), adopted]
    exact ⟨rfl, rfl⟩
  · have same : max i.sequenceNumber remote = i.sequenceNumber := by
      rw [greatest]
      split
      next le => exact UInt64.le_antisymm behind le
      next => rfl
    rw [same, unchanged]
    exact ⟨rfl, rfl⟩

/-- What comes of a synchronisation, whatever came before. -/
theorem consult_deed (h : k.consult i attempt answers = some (done, rest)) :
    Deed k (some i) answers .syncNonce done := by
  induction answers generalizing attempt with
  | nil => exact absurd h (by simp [Clerk.consult])
  | cons answer answers ih =>
    have more : answers ⊆ answer :: answers := List.subset_cons_self _ _
    unfold Clerk.consult at h
    cases answer with
    | ok remote =>
      rw [handleAnswer_ok] at h
      obtain ⟨rfl, rfl⟩ := Prod.mk.inj (Option.some.inj h)
      obtain ⟨number, next⟩ := adopt_max i remote
      rw [next]
      exact .synced rfl List.mem_cons_self number
    | error fault =>
      rw [handleAnswer_error] at h
      split at h
      next r next decided =>
        obtain ⟨ended, rfl⟩ := Prod.mk.inj decided
        obtain ⟨rfl, rfl⟩ := Prod.mk.inj (Option.some.inj h)
        split at ended
        next => exact absurd ended (by simp)
        next =>
          obtain rfl := Option.some.inj ended
          exact .unsynced rfl List.mem_cons_self
      next =>
        cases ih h with
        | synced known answered number =>
          obtain rfl := Option.some.inj known
          exact .synced rfl (more answered) number
        | unsynced known answered => exact .unsynced known (more answered)
        | unknown unknown => exact absurd unknown (by simp)

/-- What comes of a request. -/
theorem serve_deed (h : k.serve identity answers q = some (done, rest)) :
    Deed k identity answers q done := by
  cases q with
  | generate c =>
    unfold Clerk.serve at h
    dsimp only at h
    split at h
    next => exact absurd h (by simp)
    next fault refused =>
      obtain ⟨rfl, -⟩ := Prod.mk.inj (Option.some.inj h)
      exact .refused refused
    next place connected =>
      obtain ⟨rfl, -⟩ := Prod.mk.inj (Option.some.inj h)
      exact .generated connected
  | sign d =>
    obtain ⟨same, -⟩ := Prod.mk.inj (Option.some.inj h)
    unfold handleSign at same
    split at same
    next =>
      subst same
      exact .unknown rfl fun _ ↦ Request.noConfusion
    next i =>
      split at same
      next e refused =>
        obtain ⟨fault, rfl⟩ := Identity.signNext_error refused
        subst same
        exact .unsigned rfl
      next signed next made =>
        obtain ⟨early, accepted, rfl⟩ := i.signNext_ok made
        subst same
        exact .signed rfl early accepted (Identity.nonce_of_signNext made)
  | query q =>
    obtain ⟨same, -⟩ := Prod.mk.inj (Option.some.inj h)
    unfold handleQuery at same
    split at same
    next =>
      subst same
      exact .unknown rfl fun _ ↦ Request.noConfusion
    next i =>
      subst same
      exact .told rfl
  | syncNonce =>
    cases identity with
    | none =>
      obtain ⟨rfl, -⟩ := Prod.mk.inj (Option.some.inj h)
      exact .unknown rfl fun _ ↦ Request.noConfusion
    | some i => exact consult_deed h

end Deeds

end Signatory.Service
