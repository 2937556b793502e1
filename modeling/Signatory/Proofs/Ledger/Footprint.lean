import Signatory.Proofs.Ledger.Naming

/-!
# What a submission touches

A submission is refused and leaves no trace, or the transaction is recorded last and the number of
its signer moves on. Nothing else is touched: not the numbers of others, not the faults that are to
come, not the count of lookups. A ledger may enter the signer before it looks at the number, for an
account that it does not know is never refused: so nothing is left of the entry either. As nothing
is recorded but what is taken, whatever a ledger has recorded verifies, also when numbers are set.
-/

namespace Signatory.Ledger.Memory

variable {l : Memory} {s : SignedTransaction}

/-- Make sure that a number is kept for an account: zero, unless there is another. -/
def enter (l : Memory) (a : Address) : Memory :=
  match l.kept? a with
  | some _ => l
  | none => l.setNonce a 0

/-- Submit a transaction; its signer is entered before its number is looked at. -/
def sendEntering (l : Memory) (s : SignedTransaction) : Except Fault String × Memory :=
  if !s.verify then (.error (.rpc refusal "invalid signature"), l)
  else
    let l := l.enter s.signer
    if s.nonce < l.nonce s.signer then
      (.error (.rpc refusal s!"nonce too low: next is {l.nonce s.signer}, got {s.nonce}"), l)
    else
      let l := l.setNonce s.signer (next s.nonce)
      (.ok s.hash, { l with accepted := s :: l.accepted })

/-- Whether a ledger can come about from one that nobody has used. -/
inductive Arises : Memory → Prop
  | empty : Arises empty
  | setNonce {l : Memory} (before : Arises l) (a : Address) (n : UInt64) : Arises (l.setNonce a n)
  | failNext {l : Memory} (before : Arises l) (count : Nat) (fault : Fault) :
    Arises (l.failNext count fault)
  | lookup {l : Memory} (before : Arises l) (a : Address) : Arises (l.lookup a).2
  | send {l : Memory} (before : Arises l) (s : SignedTransaction) : Arises (l.send s).2

/-- Entering an account changes no number. -/
theorem nonce_enter (l : Memory) (a : Address) : (l.enter a).nonce a = l.nonce a := by
  unfold enter
  split
  next => rfl
  next unknown => rw [nonce_setNonce_self, nonce_eq_kept, unknown, Option.getD_none]

/-- A number that is set is the only one of its account, entered before or not. -/
theorem setNonce_enter (l : Memory) (a : Address) (n : UInt64) :
    (l.enter a).setNonce a n = l.setNonce a n := by
  unfold enter
  split
  next => rfl
  next => simp [Memory.setNonce]

/-- An account whose next transaction would be refused is known. -/
theorem enter_of_lt {a : Address} {n : UInt64} (low : n < l.nonce a) : l.enter a = l := by
  unfold enter
  split
  next => rfl
  next unknown =>
    rw [nonce_eq_kept, unknown, Option.getD_none, UInt64.lt_iff_toNat_lt] at low
    exact absurd low (Nat.not_lt_zero _)

/-- It makes no difference whether the signer is entered first. -/
theorem sendEntering_eq (l : Memory) (s : SignedTransaction) : l.sendEntering s = l.send s := by
  unfold sendEntering send
  split
  next => rfl
  next =>
    simp only [nonce_enter, setNonce_enter]
    split
    next low => rw [enter_of_lt low]
    next =>
      have recorded : (l.enter s.signer).accepted = l.accepted := by
        unfold enter
        split
        next => rfl
        next => rfl
      simp only [Memory.setNonce]

/-- A transaction that is not taken is refused, and leaves the ledger as it was. -/
theorem send_of_not_takes (refused : l.takes s = false) :
    (∃ message, (l.send s).1 = .error (.rpc refusal message)) ∧ (l.send s).2 = l := by
  have still := use_send l s
  rw [if_neg (by simp [refused])] at still
  refine ⟨?_, still⟩
  unfold send
  split
  next => exact ⟨_, rfl⟩
  next valid =>
    split
    next => exact ⟨_, rfl⟩
    next due =>
      have ok : l.takes s = true := takes_iff.mpr ⟨by simpa using valid, UInt64.not_lt.mp due⟩
      exact absurd (ok.symm.trans refused) (by simp)

/-- A ledger has only recorded what verifies. -/
theorem Arises.verified (h : l.Arises) {t : SignedTransaction} (recorded : t ∈ l.submitted) :
    t.verify = true := by
  induction h with
  | empty => exact absurd recorded List.not_mem_nil
  | setNonce before a n ih => exact ih recorded
  | failNext before count fault ih => exact ih recorded
  | lookup before a ih =>
    exact ih (submitted_use (u := .lookup a) (by simp) ▸ recorded)
  | @send l before s ih =>
    have whole : (l.send s).2.submitted = l.submitted ++ l.taken [.send s] :=
      submitted_uses l [.send s]
    rw [whole] at recorded
    rcases List.mem_append.mp recorded with earlier | new
    · exact ih earlier
    · exact (of_mem_taken new).1

/-- A submission is refused and leaves the ledger as it was, or it is answered by the hash: then the
transaction is recorded last, the number after its own is kept for its signer, and all else stays,
what is kept for others, the faults to come and the count of lookups. It is answered just if the
transaction verifies and its number is not below the one that is kept for the signer, or zero. All
this is so too if the signer is entered first. Whatever a ledger has recorded verifies. -/
theorem submits_all_or_nothing (l : Memory) (s : SignedTransaction) :
    ((∃ message, (l.send s).1 = .error (.rpc refusal message)) ∧ (l.send s).2 = l ∨
      (l.send s).1 = .ok s.hash ∧
        (l.send s).2.submitted = l.submitted ++ [s] ∧
        (l.send s).2.kept? s.signer = some (next s.nonce) ∧
        (∀ a, a ≠ s.signer → (l.send s).2.kept? a = l.kept? a) ∧
        (l.send s).2.faults = l.faults ∧ (l.send s).2.lookups = l.lookups) ∧
      ((∃ answer, (l.send s).1 = .ok answer) ↔
        s.verify = true ∧ (l.kept? s.signer).getD 0 ≤ s.nonce) ∧
      l.sendEntering s = l.send s ∧
      (l.Arises → ∀ t ∈ l.submitted, t.verify = true) := by
  refine ⟨?_, ?_, sendEntering_eq l s, fun arises t ↦ arises.verified⟩
  · cases ok : l.takes s with
    | false => exact .inl (send_of_not_takes ok)
    | true =>
      have answered := send_of_takes ok
      have after : (l.send s).2 =
          { l.setNonce s.signer (next s.nonce) with accepted := s :: l.accepted } :=
        (use_send l s).trans (if_pos ok)
      refine .inr ⟨answered, (of_send_ok answered).2, ?_, fun a apart ↦ ?_, ?_⟩
      · rw [after]
        exact kept_setNonce_self l s.signer (next s.nonce)
      · rw [after]
        exact kept_setNonce_of_ne apart (next s.nonce)
      · rw [after]
        exact ⟨rfl, rfl⟩
  · rw [← nonce_eq_kept, ← takes_iff]
    constructor
    · rintro ⟨answer, answered⟩
      rw [takes, answered]
      rfl
    · intro ok
      exact ⟨s.hash, send_of_takes ok⟩

/-- A ledger whose user has set the number of an account takes a transaction with that number. It
refuses the same transaction afterwards and keeps what it has. -/
theorem submits_all_or_nothing_once :
    let key := SigningKey.uniform
    let s := SignedTransaction.make key (Address.ofPublicKey key.publicKey) .plain
      (Draft.trifle.withNonce 5)
    let l := ((empty.setNonce s.signer 5).send s).2
    l.Arises ∧ l.submitted = [s] ∧ l.kept? s.signer = some 6 ∧ (l.send s).2 = l ∧
      ∀ t ∈ l.submitted, t.verify = true := by
  intro key s l
  have arises : l.Arises := .send (.setNonce .empty s.signer 5) s
  obtain ⟨taken, answers, -, -⟩ := submits_all_or_nothing (empty.setNonce s.signer 5) s
  obtain ⟨again, repeats, -, sound⟩ := submits_all_or_nothing l s
  have known := kept_setNonce_self empty s.signer 5
  have valid : s.verify = true := SignedTransaction.verify_make SigningKey.uniform_attests
  have number : s.nonce = 5 := rfl
  obtain ⟨answer, answered⟩ := answers.mpr ⟨valid, by rw [known, number]; exact UInt64.le_refl 5⟩
  rcases taken with ⟨⟨message, refused⟩, -⟩ | ⟨-, recorded, expected, -⟩
  · exact absurd (answered.symm.trans refused) (by simp)
  · have kept : l.kept? s.signer = some 6 := by
      rw [number] at expected
      exact expected
    refine ⟨arises, recorded, kept, ?_, sound arises⟩
    rcases again with ⟨-, still⟩ | ⟨ok, -⟩
    · exact still
    · have due := (repeats.mp ⟨_, ok⟩).2
      rw [kept, number] at due
      exact absurd due (by decide)

end Signatory.Ledger.Memory
