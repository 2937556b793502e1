import Signatory.Proofs.Transaction.Canonical
import Signatory.Proofs.Transaction.Signature

/-!
# What a hash is taken over

A signed transaction is named by the digest of its canonical bytes followed by its signature, with
nothing between the two. The canonical bytes say where they end, so the bytes that are hashed tell
the transaction and the signature, however long the signature is. Two names can be the same only
if the transactions and the signatures are, or if two byte strings have one digest.
-/

namespace Signatory

/-- Two byte strings that have the same digest. -/
def Hash.Collide (a b : Bytes) : Prop :=
  a ≠ b ∧ sha256 a = sha256 b

/-- A digest has 32 bytes. -/
theorem Hash.length_sha256 (message : Bytes) : (sha256 message).length = 32 := by
  simp [sha256, Variant.digest, Variant.wordBytes, variant256]

namespace SignedTransaction

variable {s s' : SignedTransaction}

/-- The bytes that the hash of a signed transaction is taken over. -/
def hashInput (s : SignedTransaction) : Bytes :=
  s.transaction.canonical ++ s.signature

/-- Whether the hash of a signed transaction is that of its canonical bytes and its signature. -/
def Named (s : SignedTransaction) : Prop :=
  s.hash = hashOf s.transaction.canonical s.signature

/-- The hash of a transaction that is named is the digest of its bytes. -/
theorem Named.hash_eq (named : s.Named) :
    s.hash = Hex.encodeMarked (Hash.sha256 s.hashInput) :=
  named

/-- What is signed is named. -/
theorem named_make (key : SigningKey) (signer : Address) (algorithm : Algorithm) (t : Transaction) :
    (make key signer algorithm t).Named :=
  rfl

/-- The hash of a transaction that is named has 66 characters. -/
theorem Named.length_hash (named : s.Named) : s.hash.length = 66 := by
  rw [named.hash_eq, Hex.length_encodeMarked, Hash.length_sha256]

/-- The bytes that are hashed tell the transaction and the signature. -/
theorem hashInput_inj (hs : s.transaction.data.length < 2 ^ 32)
    (hs' : s'.transaction.data.length < 2 ^ 32) (h : s.hashInput = s'.hashInput) :
    s.transaction = s'.transaction ∧ s.signature = s'.signature :=
  Transaction.canonical_append_inj hs hs' h

/-- A signed transaction whose hash is the digest of bytes that tell it. -/
structure Identified (s : SignedTransaction) : Prop where
  named : s.Named
  short : s.transaction.data.length < 2 ^ 32

/-- One name stands for one transaction and signature, unless two byte strings have one digest. -/
theorem Identified.eq_or_collide (hs : s.Identified) (hs' : s'.Identified)
    (h : s.hash = s'.hash) :
    (s.transaction = s'.transaction ∧ s.signature = s'.signature) ∨
      Hash.Collide s.hashInput s'.hashInput := by
  by_cases same : s.hashInput = s'.hashInput
  · exact .inl (hashInput_inj hs.short hs'.short same)
  · have digests : Hex.encodeMarked (Hash.sha256 s.hashInput) =
        Hex.encodeMarked (Hash.sha256 s'.hashInput) := by
      rw [← hs.named.hash_eq, ← hs'.named.hash_eq, h]
    exact .inr ⟨same, Hex.encodeMarked_inj digests⟩

end SignedTransaction

/-- What an identity signs is identified by its hash. -/
theorem Identity.identified_of_sign {i : Identity} {t : Transaction} {signed : SignedTransaction}
    (made : i.sign t = .ok signed) : signed.Identified := by
  obtain ⟨valid, -, rfl⟩ := sign_ok made
  have short := Transaction.length_data_of_validate valid
  exact ⟨SignedTransaction.named_make _ _ _ _, Nat.lt_of_le_of_lt short (by decide)⟩

/-- The canonical bytes of a transaction end where they say: whatever follows, they are the
beginning of no other transaction's, and what follows is told as well. So the bytes that a hash is
taken over tell the transaction and the signature, and so does the hash, up to a collision. -/
theorem Transaction.canonical_delimits (t u : Transaction) (ht : t.data.length < 2 ^ 32)
    (hu : u.data.length < 2 ^ 32) :
    (∀ p q : Bytes, t.canonical ++ p = u.canonical ++ q → t = u ∧ p = q) ∧
      (t.canonical <+: u.canonical → t = u) ∧
      ∀ s s' : SignedTransaction, s.transaction = t → s'.transaction = u →
        (s.hashInput = s'.hashInput → s.transaction = s'.transaction ∧ s.signature = s'.signature) ∧
          (s.Named → s'.Named → s.hash = s'.hash →
            (s.transaction = s'.transaction ∧ s.signature = s'.signature) ∨
              Hash.Collide s.hashInput s'.hashInput) := by
  refine ⟨fun p q ↦ canonical_append_inj ht hu, fun front ↦ ?_, ?_⟩
  · obtain ⟨more, rest⟩ := front
    have whole : t.canonical ++ more = u.canonical ++ [] := by rw [rest, List.append_nil]
    exact (canonical_append_inj ht hu whole).1
  · rintro s s' rfl rfl
    exact ⟨SignedTransaction.hashInput_inj ht hu, fun named named' same ↦
      SignedTransaction.Identified.eq_or_collide ⟨named, ht⟩ ⟨named', hu⟩ same⟩

/-- The bytes of a payment with the number five are not those of the payment with the number six,
whatever stands behind them; those of one payment for two signers are told as the same. -/
theorem Transaction.canonical_delimits_trifle :
    let five := Draft.trifle.withNonce 5
    let six := Draft.trifle.withNonce 6
    let s := SignedTransaction.make .uniform (Address.tail []) .plain five
    let s' := SignedTransaction.make .uniform (Address.tail [1]) .plain five
    five.data.length < 2 ^ 32 ∧ six.data.length < 2 ^ 32 ∧
      five.canonical ++ [1] ≠ six.canonical ++ [2] ∧
      s.hashInput = s'.hashInput ∧ s.transaction = s'.transaction ∧ s.signature = s'.signature := by
  intro five six s s'
  have short : five.data.length < 2 ^ 32 := by decide
  have short' : six.data.length < 2 ^ 32 := by decide
  obtain ⟨apart, -⟩ := canonical_delimits five six short short'
  obtain ⟨-, -, signed⟩ := canonical_delimits five five short short
  have bytes : s.hashInput = s'.hashInput := rfl
  refine ⟨short, short', fun same ↦ ?_, bytes, (signed s s' rfl rfl).1 bytes⟩
  exact absurd (congrArg Transaction.nonce (apart [1] [2] same).1) (by decide)

end Signatory
