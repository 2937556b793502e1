import Mathlib.Data.List.Infix
import Signatory.Proofs.Ledger.Submission
import Signatory.Proofs.Sync
import Signatory.Proofs.Transaction.Signature

/-!
# An identity keeps step with its ledger

An identity that has synchronised is not behind its ledger. From then on it signs with one number
after the other, so if nobody else sets the number of its account or submits for it, the ledger takes
whatever it signs, in the order in which it was signed, and expects the number after each; when
nothing is left to submit, the ledger expects the number that the identity uses next.
-/

namespace Signatory.Ledger

/-- A ledger in memory and what others do with it before each of the lookups to come: anything. -/
structure Shared where
  ledger : Memory
  others : List (Memory → Memory) := []

/-- Look up the next sequence number of an account, after others have used the ledger. -/
def Shared.lookup (a : Address) (l : Shared) : Except Fault UInt64 × Shared :=
  let met := (l.others.head?.getD id) l.ledger
  ((met.lookup a).1, ⟨(met.lookup a).2, l.others.tail⟩)

section Lookups

variable {L : Type} {lookup : L → Except Fault UInt64 × L} {a : Address} {remote : UInt64}

/-- The last of some lookups is made where the others have led. -/
theorem afterLookups_succ (n : ℕ) (l : L) :
    afterLookups lookup (n + 1) l = (lookup (afterLookups lookup n l)).2 := by
  induction n generalizing l with
  | zero => rfl
  | succ n ih => exact ih (lookup l).2

/-- A lookup changes no number. -/
theorem Memory.nonce_lookup (l : Memory) (a b : Address) : (l.lookup a).2.nonce b = l.nonce b :=
  nonce_use (u := .lookup a) (by simp) b

/-- What is taken is answered by its hash. -/
theorem Memory.send_of_takes {l : Memory} {s : SignedTransaction} (ok : l.takes s = true) :
    (l.send s).1 = .ok s.hash := by
  obtain ⟨valid, due⟩ := takes_iff.mp ok
  rw [send, if_neg (by simp [valid]), if_neg (UInt64.not_lt.mpr due)]

/-- A lookup that succeeds answers the number of the account. -/
theorem Memory.lookup_ok {l : Memory} (found : (l.lookup a).1 = .ok remote) :
    l.nonce a = remote := by
  unfold lookup at found
  cases faults : l.faults with
  | nil =>
    rw [faults] at found
    exact Except.ok.inj found
  | cons fault rest =>
    rw [faults] at found
    exact absurd found (by simp)

theorem Shared.nonce_of_lookup {l : Shared} (found : (l.lookup a).1 = .ok remote) :
    (l.lookup a).2.ledger.nonce a = remote := by
  rw [← Memory.lookup_ok found]
  exact Memory.nonce_lookup _ a a

/-- Several lookups change no number either. -/
theorem Memory.nonce_afterLookups (l : Memory) (a b : Address) (n : ℕ) :
    (afterLookups (·.lookup a) n l).nonce b = l.nonce b := by
  induction n generalizing l with
  | zero => rfl
  | succ n ih => exact (ih (l.lookup a).2).trans (l.nonce_lookup a b)

end Lookups

end Signatory.Ledger

namespace Signatory.Identity

open Ledger (Memory Shared)

variable {i : Identity} {settings : SyncSettings} {outcome : Outcome}

/-- An identity that has adopted a number has reached it. -/
theorem le_adopt (i : Identity) (remote : UInt64) :
    remote ≤ (i.adopt remote).2.sequenceNumber := by
  rcases i.adopt_eq remote with ⟨-, adopted⟩ | ⟨behind, unchanged⟩
  · rw [adopted]
    exact UInt64.le_refl _
  · rw [unchanged]
    exact behind

/-- An identity that has synchronised is not behind the ledger, whatever others did before. -/
theorem nonce_le_of_syncWith {l : Shared}
    (synced : (i.syncWith settings (Shared.lookup i.address) l).result = .ok outcome) :
    let done := i.syncWith settings (Shared.lookup i.address) l
    done.ledger.ledger.nonce i.address ≤ done.identity.sequenceNumber ∧
      done.identity = { i with sequenceNumber := done.identity.sequenceNumber } := by
  obtain ⟨failed, less, remote, yields⟩ := yields_of_syncWith synced
  rw [syncWith_of_yields yields less]
  dsimp only
  rw [Ledger.afterLookups_succ, Shared.nonce_of_lookup yields.2]
  refine ⟨i.le_adopt remote, ?_⟩
  rw [(Service.adopt_max i remote).2]

/-- An identity that is not behind the ledger stays as it is when it synchronises, and so do the
numbers of the ledger. -/
theorem sync_of_nonce_le (settings : SyncSettings) {l : Memory}
    (le : l.nonce i.address ≤ i.sequenceNumber) :
    (i.sync settings l).identity = i ∧ ∀ a, (i.sync settings l).ledger.nonce a = l.nonce a := by
  rcases Ledger.yields_or_fails (·.lookup i.address) settings.attempts.toNat l with
    ⟨failed, less, remote, yields⟩ | fails
  · have same : l.nonce i.address = remote := by
      rw [← Memory.lookup_ok yields.2]
      exact (l.nonce_afterLookups i.address i.address failed).symm
    rw [sync, syncWith_of_yields yields less]
    dsimp only
    rcases i.adopt_eq remote with ⟨ahead, -⟩ | ⟨-, unchanged⟩
    · exact absurd (same ▸ le) (UInt64.not_le.mpr ahead)
    · rw [unchanged]
      exact ⟨rfl, fun a ↦ l.nonce_afterLookups i.address a (failed + 1)⟩
  · obtain ⟨fault, -, ended⟩ := syncWith_of_fails (i := i) fails
    rw [sync, ended]
    exact ⟨rfl, fun a ↦ l.nonce_afterLookups i.address a _⟩

end Signatory.Identity

namespace Signatory

open Ledger (Fault Memory Shared)

/-- What came of a submission: the answer, and the number expected of the signer afterwards. -/
structure Receipt where
  signed : SignedTransaction
  answer : Except Fault String
  expected : UInt64

/-- An identity that transacts on a ledger in memory. -/
structure Account where
  identity : Identity
  ledger : Memory
  /-- What it has signed and not submitted yet, the earliest first. -/
  pending : List SignedTransaction := []
  /-- What came of its submissions, the earliest first. -/
  receipts : List Receipt := []

namespace Account

/-- What happens to an account. -/
inductive Move
  /-- The identity is asked to sign a draft. -/
  | sign (d : Draft)
  /-- The earliest signed transaction that is not submitted yet is submitted. -/
  | submit
  /-- The identity synchronises. -/
  | sync (settings : SyncSettings)
  /-- Somebody uses the ledger. -/
  | use (u : Memory.Use)
  /-- Somebody sets the number of an account. -/
  | setNonce (a : Address) (n : UInt64)

/-- Whether a move leaves the number of an account to its own submissions. -/
def Move.Spares (a : Address) : Move → Prop
  | .use (.send s) => s.signer ≠ a
  | .setNonce b _ => b ≠ a
  | _ => True

/-- An account after one move. -/
def move (x : Account) : Move → Account
  | .sign d =>
    match x.identity.signNext d with
    | .ok (signed, identity) => { x with identity, pending := x.pending ++ [signed] }
    | .error _ => x
  | .submit =>
    match x.pending with
    | [] => x
    | signed :: pending =>
      let (answer, ledger) := x.ledger.send signed
      { x with
        ledger, pending
        receipts := x.receipts ++ [⟨signed, answer, ledger.nonce signed.signer⟩] }
  | .sync settings =>
    let done := x.identity.sync settings x.ledger
    { x with identity := done.identity, ledger := done.ledger }
  | .use u => { x with ledger := x.ledger.use u }
  | .setNonce a n => { x with ledger := x.ledger.setNonce a n }

/-- An account after some moves. -/
def moves (x : Account) (ms : List Move) : Account :=
  ms.foldl move x

/-- Whatever the identity has signed, in order. -/
def signed (x : Account) : List SignedTransaction :=
  x.receipts.map (·.signed) ++ x.pending

/-- An account of an identity whose ledger has taken what was submitted and will take what is
pending: the numbers of the pending transactions lead from `first`, which is not below the expected
number, to the number that is used next. -/
structure InStep (i : Identity) (x : Account) (first : ℕ) : Prop where
  same : x.identity = { i with sequenceNumber := x.identity.sequenceNumber }
  made : ∀ s ∈ x.pending, ∃ t, i.sign t = .ok s
  numbers : x.pending.map (·.nonce.toNat) = List.range' first x.pending.length
  next : first + x.pending.length = x.identity.sequenceNumber.toNat
  due : (x.ledger.nonce i.address).toNat ≤ first
  settled : x.receipts ≠ [] → (x.ledger.nonce i.address).toNat = first
  taken : ∀ r ∈ x.receipts,
    r.answer = .ok r.signed.hash ∧ r.expected.toNat = r.signed.nonce.toNat + 1

variable {i : Identity} {x : Account} {first : ℕ} {m : Move} {ms : List Move}

/-- What has been signed stays signed. -/
theorem signed_prefix_move (x : Account) (m : Move) : x.signed <+: (x.move m).signed := by
  cases m with
  | sign d =>
    unfold move
    dsimp only
    split
    next s identity made => exact ⟨[s], by simp [signed]⟩
    next => exact List.prefix_rfl
  | submit =>
    unfold move
    dsimp only
    split
    next => exact List.prefix_rfl
    next s pending shape => simp [signed, shape]
  | sync => exact List.prefix_rfl
  | use => exact List.prefix_rfl
  | setNonce => exact List.prefix_rfl

theorem signed_prefix_moves (x : Account) (ms : List Move) : x.signed <+: (x.moves ms).signed := by
  induction ms generalizing x with
  | nil => exact List.prefix_rfl
  | cons m ms ih => exact (x.signed_prefix_move m).trans (ih (x.move m))

/-- Uses of the ledger that spare an account leave its number alone. -/
theorem nonce_use_of_spares {l : Memory} {u : Memory.Use} {a : Address}
    (spares : (Move.use u).Spares a) : (l.use u).nonce a = l.nonce a := by
  cases u with
  | send s =>
    by_cases ok : l.takes s = true
    · exact Memory.nonce_of_takes_of_ne ok (Ne.symm spares)
    · rw [Memory.use_send, if_neg ok]
  | lookup b => exact l.nonce_lookup b a
  | failNext => rfl

namespace InStep

/-- An account stays in step if only the ledger changes, and not the expected number. -/
theorem of_ledger (inv : x.InStep i first) {l : Memory}
    (same : l.nonce i.address = x.ledger.nonce i.address) :
    ({ x with ledger := l } : Account).InStep i first where
  same := inv.same
  made := inv.made
  numbers := inv.numbers
  next := inv.next
  due := same ▸ inv.due
  settled := fun some ↦ same ▸ inv.settled some
  taken := inv.taken

/-- What is signed is put behind what is pending, with the number after it. -/
theorem sign {d : Draft} {s : SignedTransaction} {identity : Identity} (inv : x.InStep i first)
    (made : x.identity.signNext d = .ok (s, identity)) :
    ({ x with identity, pending := x.pending ++ [s] } : Account).InStep i first := by
  obtain ⟨early, own, rfl⟩ := Identity.signNext_ok made
  have number := Identity.nonce_of_signNext made
  refine ⟨by rw [inv.same], fun t mem ↦ ?_, ?_, ?_, inv.due, inv.settled, inv.taken⟩
  · rcases List.mem_append.mp mem with mem | mem
    · exact inv.made t mem
    · obtain rfl := List.mem_singleton.mp mem
      rw [inv.same] at own
      exact ⟨_, own⟩
  · rw [List.map_append, inv.numbers, List.length_append, List.length_singleton,
      List.range'_concat, List.map_singleton, number, ← inv.next, Nat.one_mul]
  · rw [List.length_append, List.length_singleton, Identity.succ_toNat early, ← inv.next]
    exact (Nat.add_assoc _ _ _).symm

/-- The earliest pending transaction is taken, and the number after its own is expected. -/
theorem submit {s : SignedTransaction} {pending : List SignedTransaction}
    (inv : x.InStep i first) (shape : x.pending = s :: pending) (valid : s.verify = true) :
    ({ x with
        ledger := (x.ledger.send s).2, pending
        receipts := x.receipts ++
          [⟨s, (x.ledger.send s).1, (x.ledger.send s).2.nonce s.signer⟩] } : Account).InStep i
      (first + 1) := by
  obtain ⟨t, made⟩ := inv.made s (by simp [shape])
  obtain ⟨signer, -⟩ := Identity.signer_of_sign made
  have numbers := inv.numbers
  have next := inv.next
  rw [shape, List.map_cons, List.length_cons, List.range'_succ] at numbers
  rw [shape, List.length_cons] at next
  obtain ⟨number, others⟩ := List.cons.inj numbers
  have ok : x.ledger.takes s = true := by
    rw [Memory.takes_iff, signer, UInt64.le_iff_toNat_le, number]
    exact ⟨valid, inv.due⟩
  have expected : ((x.ledger.send s).2.nonce s.signer).toNat = first + 1 := by
    have bound := x.identity.sequenceNumber.toNat_lt
    have last : Identity.lastNumber.toNat = 2 ^ 64 - 1 := rfl
    have after := Memory.nonce_of_takes ok
    rw [Memory.use] at after
    rw [after, Memory.next_toNat, number]
    omega
  have settled : ((x.ledger.send s).2.nonce i.address).toNat = first + 1 := signer ▸ expected
  have rest : first + 1 + pending.length = x.identity.sequenceNumber.toNat := by omega
  refine ⟨inv.same, fun u mem ↦ inv.made u (by simp [shape, mem]), others, rest,
    Nat.le_of_eq settled, fun _ ↦ settled, fun r mem ↦ ?_⟩
  rcases List.mem_append.mp mem with mem | mem
  · exact inv.taken r mem
  · obtain rfl := List.mem_singleton.mp mem
    exact ⟨Memory.send_of_takes ok, by rw [expected, number]⟩

/-- An account stays in step with every move that leaves the number of the account to it, if the
key attests what is signed. -/
theorem move (inv : x.InStep i first) (spares : m.Spares i.address)
    (attested : ∀ s ∈ (x.move m).signed,
      i.key.Attests (i.algorithm.digest s.transaction.canonical)) :
    ∃ first, (x.move m).InStep i first := by
  cases m with
  | sign d =>
    unfold Account.move
    dsimp only
    split
    next s identity made => exact ⟨first, inv.sign made⟩
    next => exact ⟨first, inv⟩
  | submit =>
    have before (s : SignedTransaction) (mem : s ∈ x.pending) :
        i.key.Attests (i.algorithm.digest s.transaction.canonical) :=
      attested s ((x.signed_prefix_move .submit).subset (List.mem_append_right _ mem))
    unfold Account.move
    dsimp only
    split
    next => exact ⟨first, inv⟩
    next s pending shape =>
      have mem : s ∈ x.pending := by simp [shape]
      obtain ⟨t, made⟩ := inv.made s mem
      have attests := before s mem
      rw [(Identity.signer_of_sign made).2] at attests
      exact ⟨first + 1, inv.submit shape (Identity.verify_of_sign made attests)⟩
  | sync settings =>
    have address : x.identity.address = i.address := by rw [inv.same]
    have le : x.ledger.nonce x.identity.address ≤ x.identity.sequenceNumber := by
      have due := inv.due
      have next := inv.next
      rw [address, UInt64.le_iff_toNat_le]
      omega
    obtain ⟨stays, numbers⟩ := Identity.sync_of_nonce_le settings le
    have moved : x.move (.sync settings) =
        { x with ledger := (x.identity.sync settings x.ledger).ledger } := by
      rw [Account.move, stays]
    rw [moved]
    exact ⟨first, inv.of_ledger (numbers i.address)⟩
  | use u => exact ⟨first, inv.of_ledger (nonce_use_of_spares spares)⟩
  | setNonce a n => exact ⟨first, inv.of_ledger (Memory.nonce_setNonce_of_ne (Ne.symm spares) n)⟩

/-- An account stays in step with any number of such moves. -/
theorem moves (inv : x.InStep i first) (spares : ∀ m ∈ ms, m.Spares i.address)
    (attested : ∀ s ∈ (x.moves ms).signed,
      i.key.Attests (i.algorithm.digest s.transaction.canonical)) :
    ∃ first, (x.moves ms).InStep i first := by
  induction ms generalizing x first with
  | nil => exact ⟨first, inv⟩
  | cons m ms ih =>
    have now (s : SignedTransaction) (mem : s ∈ (x.move m).signed) :=
      attested s (((x.move m).signed_prefix_moves ms).subset mem)
    obtain ⟨first, inv⟩ := inv.move (spares m List.mem_cons_self) now
    exact ih inv (fun m mem ↦ spares m (List.mem_cons_of_mem _ mem)) attested

end InStep

/-- The account of an identity that has synchronised with a ledger that others use as well. -/
def synced (settings : SyncSettings) (i : Identity) (l : Shared) : Account :=
  let done := i.syncWith settings (Shared.lookup i.address) l
  { identity := done.identity, ledger := done.ledger.ledger }

/-- An account is in step after a synchronisation that succeeds. -/
theorem inStep_synced {settings : SyncSettings} {l : Shared} {outcome : Outcome}
    (ok : (i.syncWith settings (Shared.lookup i.address) l).result = .ok outcome) :
    (synced settings i l).InStep i (synced settings i l).identity.sequenceNumber.toNat := by
  obtain ⟨le, same⟩ := Identity.nonce_le_of_syncWith ok
  exact ⟨same, by simp [synced], rfl, rfl, UInt64.le_iff_toNat_le.mp le,
    fun some ↦ absurd rfl some, by simp [synced]⟩

/-- After a synchronisation that succeeds, the ledger takes whatever the identity signs, in order,
as long as nobody else sets its number or submits for it: after each transaction it expects the
number after that transaction's own, and when everything is submitted, the identity's next number. -/
theorem takes_in_order {settings : SyncSettings} {l : Shared} {outcome : Outcome}
    (ok : (i.syncWith settings (Shared.lookup i.address) l).result = .ok outcome)
    (spares : ∀ m ∈ ms, m.Spares i.address)
    (attested : ∀ s ∈ ((synced settings i l).moves ms).signed,
      i.key.Attests (i.algorithm.digest s.transaction.canonical)) :
    let x := (synced settings i l).moves ms
    (∀ r ∈ x.receipts,
        r.answer = .ok r.signed.hash ∧ r.expected.toNat = r.signed.nonce.toNat + 1) ∧
      (x.receipts ≠ [] → x.pending = [] →
        x.ledger.nonce i.address = x.identity.sequenceNumber) := by
  intro x
  obtain ⟨first, inv⟩ := (inStep_synced ok).moves spares attested
  refine ⟨inv.taken, fun some none ↦ UInt64.toNat_inj.mp ?_⟩
  have next := inv.next
  rw [none, List.length_nil, Nat.add_zero] at next
  rw [inv.settled some, next]

/-- Somebody sets the number of the account between a lookup that fails and one that succeeds; the
identity adopts it, a draft without gas is refused, and the payment with that number is taken. -/
theorem takes_in_order_trifle :
    let i : Identity := .make SigningKey.uniform.secret .plain (.memory "main") "memory://main" 3
    let down : Fault := .transport "connection reset"
    let l : Shared := ⟨Memory.empty.failNext 1 down, [id, (·.setNonce i.address 5)]⟩
    let ms : List Move :=
      [.sign { Draft.trifle with gasLimit := 0 }, .sign .trifle, .use (.failNext 2 down), .submit]
    let x := (synced ⟨3, 0⟩ i l).moves ms
    (i.syncWith ⟨3, 0⟩ (Shared.lookup i.address) l).result = .ok (.adopted 3 5) ∧
      x.signed.map (·.nonce) = [5] ∧ x.pending = [] ∧
      (∀ r ∈ x.receipts, r.answer = .ok r.signed.hash) ∧
      x.ledger.nonce i.address = x.identity.sequenceNumber := by
  intro i down l ms x
  have yields (a : Address) : Ledger.Yields (Shared.lookup a) 1 5
      ⟨Memory.empty.failNext 1 down, [id, (·.setNonce a 5)]⟩ := by
    refine ⟨fun n less ↦ ?_, congrArg Except.ok (Memory.nonce_setNonce_self _ a 5)⟩
    obtain rfl := Nat.lt_one_iff.mp less
    exact ⟨down, rfl⟩
  have done : i.syncWith ⟨3, 0⟩ (Shared.lookup i.address) l = _ :=
    Identity.syncWith_of_yields (yields i.address) (by decide)
  have ok : (i.syncWith ⟨3, 0⟩ (Shared.lookup i.address) l).result = .ok (.adopted 3 5) := by
    rw [done]
    rfl
  -- The payment is signed with whatever key, and submitted to whatever ledger.
  have run (j : Identity) (five : j.sequenceNumber = 5) (plain : j.algorithm = .plain) (L : Memory) :
      ((Account.mk j L [] []).moves ms).signed =
          [.make j.key j.address .plain (Draft.trifle.withNonce 5)] ∧
        ((Account.mk j L [] []).moves ms).pending = [] := by
    obtain ⟨key, algorithm, address, number, place, endpoint, own⟩ := j
    obtain rfl := five
    obtain rfl := plain
    exact ⟨rfl, rfl⟩
  have start : synced ⟨3, 0⟩ i l =
      ⟨{ i with sequenceNumber := 5 },
        (Ledger.afterLookups (Shared.lookup i.address) 2 l).ledger, [], []⟩ := by
    rw [synced, done, (Service.adopt_max i 5).2]
    rfl
  obtain ⟨signed, emptied⟩ := run { i with sequenceNumber := 5 } rfl rfl
    (Ledger.afterLookups (Shared.lookup i.address) 2 l).ledger
  rw [← start] at signed emptied
  have attested (s : SignedTransaction) (mem : s ∈ ((synced ⟨3, 0⟩ i l).moves ms).signed) :
      i.key.Attests (i.algorithm.digest s.transaction.canonical) := by
    rw [signed] at mem
    obtain rfl := List.mem_singleton.mp mem
    exact SigningKey.uniform_attests
  have spares (m : Move) (mem : m ∈ ms) : m.Spares i.address := by
    simp only [ms, List.mem_cons, List.not_mem_nil, or_false] at mem
    rcases mem with rfl | rfl | rfl | rfl <;> trivial
  obtain ⟨taken, settled⟩ := takes_in_order ok spares attested
  have numbers : ((synced ⟨3, 0⟩ i l).moves ms).signed.map (·.nonce) = [5] := by
    rw [signed]
    rfl
  have known : x = (synced ⟨3, 0⟩ i l).moves ms := rfl
  clear_value x
  rw [← known] at emptied taken settled numbers
  refine ⟨ok, numbers, emptied, fun r mem ↦ (taken r mem).1, settled (fun none ↦ ?_) emptied⟩
  rw [Account.signed, none, emptied] at numbers
  exact absurd numbers (by simp)

end Account

end Signatory
