import Signatory.Proofs.Ledger.Settlement
import Signatory.Proofs.Transaction.Hash

/-!
# What a verified transaction is named

Verification looks at the signer's key and at the signature, and at nothing else: the hash may be
any text. A ledger answers the hash that it is given, so the answer names the transaction that was
recorded only if whoever submitted it took the digest, as every identity does.
-/

namespace Signatory

namespace SignedTransaction

variable {s : SignedTransaction}

/-- A transaction verifies if its key is the signer's and its signature is valid under the key. -/
theorem verify_iff : s.verify = true ↔
    Address.ofPublicKey s.publicKey = s.signer ∧
      Ed25519.verify s.publicKey (s.algorithm.digest s.transaction.canonical) s.signature =
        true := by
  rw [verify, Bool.and_eq_true, Bool.and_eq_true, decide_eq_true_iff]
  constructor
  · rintro ⟨⟨-, own⟩, valid⟩
    exact ⟨own, valid⟩
  · rintro ⟨own, valid⟩
    exact ⟨⟨Ed25519.isPublicKey_of_verify valid, own⟩, valid⟩

/-- Verification does not look at the hash. -/
theorem verify_rename (s : SignedTransaction) (text : String) :
    { s with hash := text }.verify = s.verify :=
  rfl

end SignedTransaction

namespace Ledger.Memory

variable {l : Memory} {s u : SignedTransaction} {us : List Use} {answer : String}

/-- A ledger that nobody has used takes whatever verifies. -/
theorem takes_empty (valid : s.verify = true) : empty.takes s = true := by
  refine takes_iff.mpr ⟨valid, UInt64.le_iff_toNat_le.mpr ?_⟩
  have unknown : empty.nonce s.signer = 0 := rfl
  rw [unknown]
  exact Nat.zero_le _

/-- What is taken was submitted. -/
theorem sent_of_mem_taken (mem : s ∈ l.taken us) : Use.send s ∈ us := by
  induction us generalizing l with
  | nil => exact absurd mem List.not_mem_nil
  | cons use us ih =>
    cases use with
    | lookup => exact List.mem_cons_of_mem _ (ih mem)
    | failNext => exact List.mem_cons_of_mem _ (ih mem)
    | send u =>
      rw [taken] at mem
      split at mem
      next =>
        rcases List.mem_cons.mp mem with rfl | later
        · exact List.mem_cons_self
        · exact List.mem_cons_of_mem _ (ih later)
      next => exact List.mem_cons_of_mem _ (ih mem)

/-- A submission is answered if the transaction is taken: by its hash, and it is recorded last. -/
theorem of_send_ok (sent : (l.send s).1 = .ok answer) :
    answer = s.hash ∧ (l.send s).2.submitted = l.submitted ++ [s] := by
  have ok : l.takes s = true := by
    rw [takes, sent]
    rfl
  have recorded := submitted_uses l [.send s]
  rw [taken, if_pos ok] at recorded
  exact ⟨Except.ok.inj (sent.symm.trans (send_of_takes ok)), recorded⟩

/-- While whatever is submitted is identified by its hash, an answer stands for one recorded
transaction, unless two byte strings have one digest. -/
theorem identified_by_answer (first : ∀ u, Use.send u ∈ us → u.Identified) (known : s.Identified)
    (sent : ((empty.uses us).send s).1 = .ok answer)
    (recorded : u ∈ ((empty.uses us).send s).2.submitted) (same : u.hash = answer) :
    (u.transaction = s.transaction ∧ u.signature = s.signature) ∨
      Hash.Collide u.hashInput s.hashInput := by
  obtain ⟨rfl, whole⟩ := of_send_ok sent
  rw [whole, submitted_uses] at recorded
  have identified : u.Identified := by
    rcases List.mem_append.mp recorded with before | last
    · exact first u (sent_of_mem_taken (by simpa [submitted, empty] using before))
    · rwa [List.mem_singleton.mp last]
  exact identified.eq_or_collide known same

end Ledger.Memory

namespace SignedTransaction

open Ledger (Memory)

/-- A transaction verifies if its key is the signer's and its signature is valid for its message,
under whatever hash. A ledger that accepts it records it and answers the hash as it is; so the
answer stands for the recorded transaction, up to a collision, if every hash that is submitted is
the digest it should be, as the hashes of identities are. -/
theorem verified_but_for_hash (s : SignedTransaction) :
    (s.verify = true ↔
        Address.ofPublicKey s.publicKey = s.signer ∧
          Ed25519.verify s.publicKey (s.algorithm.digest s.transaction.canonical) s.signature =
            true) ∧
      (∀ text : String, { s with hash := text }.verify = s.verify) ∧
      (∀ (i : Identity) (t : Transaction), i.sign t = .ok s → s.Identified) ∧
      (∀ l : Memory, l.nonce s.signer ≤ s.nonce → s.verify = true →
        (l.send s).1 = .ok s.hash ∧ (l.send s).2.submitted = l.submitted ++ [s]) ∧
      ∀ (us : List Memory.Use) (answer : String),
        (∀ u, Memory.Use.send u ∈ us → u.Identified) → s.Identified →
          ((Memory.empty.uses us).send s).1 = .ok answer →
            ∀ u ∈ ((Memory.empty.uses us).send s).2.submitted, u.hash = answer →
              (u.transaction = s.transaction ∧ u.signature = s.signature) ∨
                Hash.Collide u.hashInput s.hashInput := by
  refine ⟨verify_iff, verify_rename s, fun i t ↦ Identity.identified_of_sign, ?_, ?_⟩
  · intro l due valid
    have answered := Memory.send_of_takes (Memory.takes_iff.mpr ⟨valid, due⟩)
    exact ⟨answered, (Memory.of_send_ok answered).2⟩
  · intro us answer first known sent u recorded same
    exact Memory.identified_by_answer first known sent recorded same

/-- The payment of the uniform key is taken under its own hash. -/
theorem verified_but_for_hash_trifle :
    let key := SigningKey.uniform
    let s := make key (Address.ofPublicKey key.publicKey) .plain (Draft.trifle.withNonce 5)
    s.verify = true ∧
      Ed25519.verify s.publicKey (s.algorithm.digest s.transaction.canonical) s.signature = true ∧
      s.Identified ∧ (Memory.empty.send s).1 = .ok s.hash ∧
      (Memory.empty.send s).2.submitted = [s] := by
  intro key s
  have valid : s.verify = true := verify_make SigningKey.uniform_attests
  obtain ⟨checked, -, -, taken, -⟩ := verified_but_for_hash s
  have due := (Memory.takes_iff.mp (Memory.takes_empty valid)).2
  exact ⟨valid, (checked.mp valid).2, ⟨named_make _ _ _ _, by decide⟩, taken _ due valid⟩

/-- The same payment verifies and is taken under a hash that is no digest, and the ledger answers
that. -/
theorem renamed_verifies :
    let key := SigningKey.uniform
    let signed := make key (Address.ofPublicKey key.publicKey) .plain (Draft.trifle.withNonce 5)
    let s := { signed with hash := "0x00" }
    s.verify = true ∧
      s.hash ≠ Hex.encodeMarked (Hash.sha256 (s.transaction.canonical ++ s.signature)) ∧
      (Memory.empty.send s).1 = .ok "0x00" ∧ (Memory.empty.send s).2.submitted = [s] := by
  intro key signed s
  have valid : s.verify = true :=
    (verify_rename signed "0x00").trans (verify_make SigningKey.uniform_attests)
  have answered := Memory.send_of_takes (Memory.takes_empty valid)
  refine ⟨valid, fun named ↦ ?_, answered, (Memory.of_send_ok answered).2⟩
  have length : s.hash.length = 66 := Named.length_hash named
  exact absurd length (by decide)

end SignedTransaction

end Signatory
