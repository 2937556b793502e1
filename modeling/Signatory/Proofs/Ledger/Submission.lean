import Mathlib.Data.List.Basic
import Signatory.Ledger.Memory
import Signatory.Proofs.Identity

/-!
# Submission to a ledger in memory

While nobody sets an account's number, the numbers of the transactions that a ledger takes from one
signer grow, and the number it expects next is the one after the last that it took. So nothing is
taken twice, except that there is no number after the greatest: the ledger goes on to expect the
greatest number when it has taken it, and takes it again.
-/

namespace Signatory.Ledger.Memory

/-- What is done with a ledger while nobody sets a number. -/
inductive Use
  /-- A transaction is submitted. -/
  | send (s : SignedTransaction)
  /-- The next number of an account is looked up. -/
  | lookup (a : Address)
  /-- Lookups are made to fail. -/
  | failNext (count : Nat) (fault : Fault)

/-- The ledger after one use. -/
def use (l : Memory) : Use → Memory
  | .send s => (l.send s).2
  | .lookup a => (l.lookup a).2
  | .failNext count fault => l.failNext count fault

/-- The ledger after some uses. -/
def uses (l : Memory) (us : List Use) : Memory :=
  us.foldl use l

/-- Whether a ledger would take a transaction. -/
def takes (l : Memory) (s : SignedTransaction) : Bool :=
  (l.send s).1.isOk

/-- The transactions that are taken in the course of some uses, in order. -/
def taken (l : Memory) : List Use → List SignedTransaction
  | [] => []
  | .send s :: us =>
    if l.takes s then s :: (l.use (.send s)).taken us else (l.use (.send s)).taken us
  | u :: us => (l.use u).taken us

/-- Two transactions of which the second may be taken after the first, if they have one signer: its
number is greater, or both have the greatest. -/
def InTurn (s t : SignedTransaction) : Prop :=
  s.signer = t.signer →
    s.nonce < t.nonce ∨ s.nonce = Identity.lastNumber ∧ t.nonce = Identity.lastNumber

variable {l : Memory} {s t : SignedTransaction} {us : List Use}

/-- The number after another is one more, unless that is too great. -/
theorem next_toNat (n : UInt64) : (next n).toNat = min (n.toNat + 1) Identity.lastNumber.toNat := by
  have bound := n.toNat_lt
  have last : Identity.lastNumber.toNat = 2 ^ 64 - 1 := rfl
  unfold next
  split
  next same =>
    rw [same, show UInt64.ofNat (2 ^ 64 - 1) = Identity.lastNumber from rfl]
    omega
  next early =>
    rw [Identity.succ_toNat early]
    have apart : n.toNat ≠ 2 ^ 64 - 1 := fun same ↦ early (UInt64.toNat_inj.mp same)
    omega

/-- What is not below the number after another is greater, or both are the greatest. -/
theorem next_le_iff {n m : UInt64} :
    next n ≤ m ↔ n < m ∨ n = Identity.lastNumber ∧ m = Identity.lastNumber := by
  have bound := m.toNat_lt
  have bound' := n.toNat_lt
  have last : Identity.lastNumber.toNat = 2 ^ 64 - 1 := rfl
  rw [UInt64.le_iff_toNat_le, UInt64.lt_iff_toNat_lt, ← UInt64.toNat_inj, ← UInt64.toNat_inj,
    next_toNat]
  omega

/-- A transaction is taken if it verifies and its number is not below the expected one. -/
theorem takes_iff : l.takes s = true ↔ s.verify = true ∧ l.nonce s.signer ≤ s.nonce := by
  unfold takes send
  by_cases valid : s.verify = true
  · by_cases low : s.nonce < l.nonce s.signer
    · simp [valid, low, Except.isOk, Except.toBool]
    · simpa [valid, low, Except.isOk, Except.toBool] using UInt64.not_lt.mp low
  · simp [valid, Except.isOk, Except.toBool]

/-- The ledger after a submission: the transaction is recorded and its signer's number moved on if
it is taken, and nothing happens otherwise. -/
theorem use_send (l : Memory) (s : SignedTransaction) :
    l.use (.send s) =
      if l.takes s then
        { l.setNonce s.signer (next s.nonce) with accepted := s :: l.accepted }
      else l := by
  unfold use takes send
  by_cases valid : s.verify = true
  · by_cases low : s.nonce < l.nonce s.signer <;>
      simp [valid, low, Except.isOk, Except.toBool, setNonce]
  · simp [valid, Except.isOk, Except.toBool]

/-- The number that is kept for an account, if any is. -/
def kept? (l : Memory) (a : Address) : Option UInt64 :=
  (l.nonces.find? (·.1 = a)).map (·.2)

/-- The expected number is the one that is kept, or zero. -/
theorem nonce_eq_kept (l : Memory) (a : Address) : l.nonce a = (l.kept? a).getD 0 := by
  unfold nonce kept?
  cases l.nonces.find? (·.1 = a) with
  | none => rfl
  | some => rfl

/-- The number that is set is kept. -/
theorem kept_setNonce_self (l : Memory) (a : Address) (n : UInt64) :
    (l.setNonce a n).kept? a = some n := by
  simp [kept?, setNonce]

/-- What is kept for an account is left alone when another's number is set. -/
theorem kept_setNonce_of_ne {a b : Address} (apart : b ≠ a) (n : UInt64) :
    (l.setNonce a n).kept? b = l.kept? b := by
  have skipped (entries : List (Address × UInt64)) :
      (entries.filter (·.1 ≠ a)).find? (·.1 = b) = entries.find? (·.1 = b) := by
    rw [List.find?_filter]
    congr 1
    funext entry
    by_cases same : entry.1 = b
    · simp [same, apart]
    · simp [same]
  simp only [kept?, setNonce, List.find?_cons, Ne.symm apart, decide_false, skipped]

/-- An account's number is left alone when another's is set. -/
theorem nonce_setNonce_of_ne {a b : Address} (apart : b ≠ a) (n : UInt64) :
    (l.setNonce a n).nonce b = l.nonce b := by
  rw [nonce_eq_kept, nonce_eq_kept, kept_setNonce_of_ne apart]

/-- Lookups and their failures change no number. -/
theorem nonce_use {u : Use} (quiet : ∀ s, u ≠ .send s) (a : Address) :
    (l.use u).nonce a = l.nonce a := by
  cases u with
  | send s => exact absurd rfl (quiet s)
  | failNext => rfl
  | lookup => simp only [use, lookup]; cases l.faults <;> rfl

/-- Lookups and their failures take nothing. -/
theorem taken_quiet {u : Use} (quiet : ∀ s, u ≠ .send s) :
    l.taken (u :: us) = (l.use u).taken us := by
  rw [taken]
  exact quiet

/-- Lookups and their failures record no transaction. -/
theorem submitted_use {u : Use} (quiet : ∀ s, u ≠ .send s) :
    (l.use u).submitted = l.submitted := by
  cases u with
  | send s => exact absurd rfl (quiet s)
  | failNext => rfl
  | lookup => simp only [use, lookup]; cases l.faults <;> rfl

/-- When a transaction is taken, the number after its own is expected next. -/
theorem nonce_of_takes (ok : l.takes s = true) :
    (l.use (.send s)).nonce s.signer = next s.nonce := by
  rw [use_send, if_pos ok]
  exact nonce_setNonce_self l s.signer (next s.nonce)

/-- When a transaction is taken, the numbers of other accounts are left alone. -/
theorem nonce_of_takes_of_ne {a : Address} (ok : l.takes s = true) (apart : a ≠ s.signer) :
    (l.use (.send s)).nonce a = l.nonce a := by
  rw [use_send, if_pos ok]
  exact nonce_setNonce_of_ne apart (next s.nonce)

/-- The expected number never goes down. -/
theorem nonce_le_use (l : Memory) (u : Use) (a : Address) : l.nonce a ≤ (l.use u).nonce a := by
  cases u with
  | lookup b => exact (nonce_use (u := .lookup b) (by simp) a) ▸ UInt64.le_refl _
  | failNext => exact UInt64.le_refl _
  | send s =>
    by_cases ok : l.takes s = true
    · by_cases same : a = s.signer
      · subst same
        have due := (takes_iff.mp ok).2
        have bound := s.nonce.toNat_lt
        have last : Identity.lastNumber.toNat = 2 ^ 64 - 1 := rfl
        rw [nonce_of_takes ok, UInt64.le_iff_toNat_le, next_toNat]
        rw [UInt64.le_iff_toNat_le] at due
        omega
      · rw [nonce_of_takes_of_ne ok same]
        exact UInt64.le_refl _
    · rw [use_send, if_neg ok]
      exact UInt64.le_refl _

/-- What is taken verifies, and its number is not below the one that was expected. -/
theorem of_mem_taken (mem : s ∈ l.taken us) : s.verify = true ∧ l.nonce s.signer ≤ s.nonce := by
  induction us generalizing l with
  | nil => exact absurd mem List.not_mem_nil
  | cons u us ih =>
    have later (mem : s ∈ (l.use u).taken us) :
        s.verify = true ∧ l.nonce s.signer ≤ s.nonce :=
      ⟨(ih mem).1, UInt64.le_trans (nonce_le_use l u s.signer) (ih mem).2⟩
    cases u with
    | lookup => exact later mem
    | failNext => exact later mem
    | send t =>
      rw [taken] at mem
      split at mem
      next ok =>
        rcases List.mem_cons.mp mem with rfl | mem
        · exact takes_iff.mp ok
        · exact later mem
      next => exact later mem

/-- The transactions that are taken are recorded, in order. -/
theorem submitted_uses (l : Memory) (us : List Use) :
    (l.uses us).submitted = l.submitted ++ l.taken us := by
  induction us generalizing l with
  | nil => simp [uses, taken]
  | cons u us ih =>
    rw [uses, List.foldl_cons, ← uses, ih]
    cases u with
    | lookup => rw [submitted_use (by simp), taken_quiet (by simp)]
    | failNext => rw [submitted_use (by simp), taken_quiet (by simp)]
    | send s =>
      rw [taken, use_send]
      split
      next => simp [submitted, setNonce]
      next => rfl

/-- What is taken later from the same signer has a greater number, unless both are the greatest. -/
theorem taken_inTurn (l : Memory) (us : List Use) : (l.taken us).Pairwise InTurn := by
  induction us generalizing l with
  | nil => exact .nil
  | cons u us ih =>
    cases u with
    | lookup => exact ih _
    | failNext => exact ih _
    | send s =>
      rw [taken]
      split
      next ok =>
        refine .cons (fun t mem same ↦ ?_) (ih _)
        have due := (of_mem_taken mem).2
        rwa [← same, nonce_of_takes ok, next_le_iff] at due
      next => exact ih _

/-- The transactions of a signer that are taken, in order. -/
def takenFrom (l : Memory) (us : List Use) (a : Address) : List SignedTransaction :=
  (l.taken us).filter (·.signer = a)

/-- The number that is expected of a signer is the one after the last that was taken, if any. -/
theorem nonce_uses (l : Memory) (us : List Use) (a : Address) :
    (l.uses us).nonce a =
      ((l.takenFrom us a).getLast?.map (next ·.nonce)).getD (l.nonce a) := by
  induction us generalizing l with
  | nil => rfl
  | cons u us ih =>
    rw [uses, List.foldl_cons, ← uses, ih]
    cases u with
    | lookup => rw [nonce_use (by simp), takenFrom, takenFrom, taken_quiet (by simp)]
    | failNext => rw [nonce_use (by simp), takenFrom, takenFrom, taken_quiet (by simp)]
    | send s =>
      by_cases ok : l.takes s = true
      · rw [takenFrom, takenFrom, taken, if_pos ok]
        by_cases same : s.signer = a
        · rw [List.filter_cons_of_pos (by simpa using same), List.getLast?_cons, ← same,
            nonce_of_takes ok]
          cases ((l.use (.send s)).taken us |>.filter (·.signer = s.signer)).getLast? <;> rfl
        · rw [List.filter_cons_of_neg (by simpa using same),
            nonce_of_takes_of_ne ok (Ne.symm same)]
      · rw [takenFrom, takenFrom, taken, if_neg ok, use_send, if_neg ok]

/-- What was taken is taken again only if it has the greatest number. -/
theorem takes_again_iff (mem : s ∈ l.taken us) :
    (l.uses us).takes s = true ↔ s.nonce = Identity.lastNumber := by
  -- The last transaction that was taken from the signer decides: it is this one or a later one.
  have own : s ∈ l.takenFrom us s.signer := List.mem_filter.mpr ⟨mem, by simp⟩
  have turns : (l.takenFrom us s.signer).Pairwise InTurn := (taken_inTurn l us).filter _
  obtain ⟨before, t, shape⟩ :=
    (l.takenFrom us s.signer).eq_nil_or_concat'.resolve_left (List.ne_nil_of_mem own)
  have signer : s.signer = t.signer := by
    have mem : t ∈ l.takenFrom us s.signer := by simp [shape]
    exact (of_decide_eq_true (List.mem_filter.mp mem).2).symm
  have expected : (l.uses us).nonce s.signer = next t.nonce := by
    rw [nonce_uses, shape]
    simp
  have order : s.nonce ≤ t.nonce := by
    rw [shape] at own turns
    rcases List.mem_append.mp own with mem | mem
    · rcases (List.pairwise_append.mp turns).2.2 s mem t (by simp) signer with less | ⟨same, last⟩
      · exact UInt64.le_of_lt less
      · rw [same, last]
        exact UInt64.le_refl _
    · rw [List.mem_singleton.mp mem]
      exact UInt64.le_refl _
  rw [takes_iff, expected, next_le_iff]
  constructor
  · rintro ⟨-, less | ⟨-, last⟩⟩
    · exact absurd less (UInt64.not_lt.mpr order)
    · exact last
  · intro last
    refine ⟨(of_mem_taken mem).1, .inr ⟨?_, last⟩⟩
    have bound := t.nonce.toNat_lt
    have greatest : Identity.lastNumber.toNat = 2 ^ 64 - 1 := rfl
    rw [last, UInt64.le_iff_toNat_le] at order
    exact UInt64.toNat_inj.mp (by omega)

/-- A transaction with the greatest number that verifies is taken as often as it is submitted. -/
theorem taken_twice (valid : s.verify = true) (last : s.nonce = Identity.lastNumber) :
    l.taken [.send s, .send s] = [s, s] ∧ (l.uses [.send s]).nonce s.signer = s.nonce ∧
      (l.uses [.send s, .send s]).nonce s.signer = s.nonce := by
  have taken (l : Memory) : l.takes s = true := by
    refine takes_iff.mpr ⟨valid, ?_⟩
    have bound := (l.nonce s.signer).toNat_lt
    have greatest : Identity.lastNumber.toNat = 2 ^ 64 - 1 := rfl
    rw [last, UInt64.le_iff_toNat_le]
    omega
  have stays (l : Memory) : (l.use (.send s)).nonce s.signer = s.nonce := by
    rw [nonce_of_takes (taken l), last]
    exact if_pos rfl
  refine ⟨?_, stays l, stays _⟩
  simp only [Memory.taken, taken, if_true]

/-- In the course of any uses the transactions that are taken are recorded in order; the numbers of
one signer's grow, as long as the greatest is not reached; the number expected next is the one after
the last, and at most the greatest; and what was taken is taken again just if it has the greatest
number. -/
theorem uses_in_turn (l : Memory) (us : List Use) :
    (l.uses us).submitted = l.submitted ++ l.taken us ∧
      (l.taken us).Pairwise InTurn ∧
      (∀ s, (l.uses us).takes s = true →
        (((l.uses us).use (.send s)).nonce s.signer).toNat =
          min (s.nonce.toNat + 1) Identity.lastNumber.toNat) ∧
      (∀ a, (l.uses us).nonce a =
        ((l.takenFrom us a).getLast?.map (next ·.nonce)).getD (l.nonce a)) ∧
      ∀ s ∈ l.taken us, ((l.uses us).takes s = true ↔ s.nonce = Identity.lastNumber) := by
  refine ⟨submitted_uses l us, taken_inTurn l us, fun s ok ↦ ?_, nonce_uses l us, fun s mem ↦ ?_⟩
  · rw [nonce_of_takes ok, next_toNat]
  · exact takes_again_iff mem

/-- A transaction with the greatest number, signed with the key whose point is neutral: its
signature holds for every message. -/
def greatest : SignedTransaction :=
  let key : Bytes := 1 :: List.replicate 31 0
  { transaction := (Draft.transfer (Address.tail []) 1).withNonce Identity.lastNumber
    algorithm := .plain
    signer := Address.ofPublicKey key
    publicKey := key
    signature := key ++ List.replicate 32 0
    hash := "" }

/-- The signature of the transaction with the greatest number is valid. -/
theorem greatest_verifies : greatest.verify = true := by
  have key : Ed25519.isPublicKey greatest.publicKey = true := by decide +kernel
  have signature : greatest.algorithm.verify greatest.publicKey greatest.transaction.canonical
      greatest.signature = true := by decide +kernel
  have signer : Address.ofPublicKey greatest.publicKey = greatest.signer := rfl
  simp only [SignedTransaction.verify, key, signature, signer, decide_true, Bool.and_true]

/-- A transaction is taken twice, and the number expected after each time is its own. -/
theorem greatest_taken_twice :
    greatest.verify = true ∧
      empty.taken [.send greatest, .send greatest] = [greatest, greatest] ∧
      (empty.uses [.send greatest]).nonce greatest.signer = greatest.nonce ∧
      (empty.uses [.send greatest, .send greatest]).nonce greatest.signer = greatest.nonce :=
  ⟨greatest_verifies, taken_twice greatest_verifies rfl⟩

end Signatory.Ledger.Memory
