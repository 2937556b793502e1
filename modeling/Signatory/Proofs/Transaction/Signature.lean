import Signatory.Proofs.Identity

/-!
# Signatures that verify

A transaction that an identity signs carries the identity's own key and address, so it verifies as
soon as the signature that the key makes for its message is valid under the public key.
-/

namespace Signatory

/-- The signature that a key makes for a message is valid under the public key. -/
def SigningKey.Attests (key : SigningKey) (message : Bytes) : Prop :=
  Ed25519.verify key.publicKey message (key.sign message) = true

/-- A key whose bytes are all the same. -/
def SigningKey.uniform : SigningKey :=
  .ofPrivateKey ⟨List.replicate Ed25519.keyLength 2, rfl⟩

/-- A payment to the address that is zero. -/
def Draft.trifle : Draft :=
  .transfer (Address.tail []) 42

/-- The uniform key attests the payment as its transaction with the number five. -/
theorem SigningKey.uniform_attests :
    uniform.Attests (Algorithm.plain.digest (Draft.trifle.withNonce 5).canonical) := by
  unfold Attests
  decide +kernel

/-- Bytes under which a signature is valid name a public key. -/
theorem Ed25519.isPublicKey_of_verify {key message signature : Bytes}
    (valid : verify key message signature = true) : isPublicKey key = true := by
  unfold verify at valid
  split at valid
  next lengths =>
    cases point : Curve.Point.decompress? key with
    | none =>
      rw [point] at valid
      exact absurd valid (by simp)
    | some p =>
      rw [isPublicKey, point]
      simp [lengths.1]
  next => exact absurd valid (by simp)

/-- What is signed with a key verifies, if the key attests its message. -/
theorem SignedTransaction.verify_make {key : SigningKey} {algorithm : Algorithm} {t : Transaction}
    (attests : key.Attests (algorithm.digest t.canonical)) :
    (make key (Address.ofPublicKey key.publicKey) algorithm t).verify = true := by
  have known := Ed25519.isPublicKey_of_verify attests
  have valid : algorithm.verify key.publicKey t.canonical (algorithm.sign key t.canonical) = true :=
    attests
  simp only [verify, make, known, valid, decide_true, Bool.and_self]

namespace Identity

variable {i next : Identity} {d : Draft} {t : Transaction} {signed : SignedTransaction}

/-- What an identity signs is its own. -/
theorem signer_of_sign (made : i.sign t = .ok signed) :
    signed.signer = i.address ∧ signed.transaction = t := by
  rw [(sign_ok made).2.2]
  exact ⟨rfl, rfl⟩

/-- What an identity signs verifies, if its key attests the message. -/
theorem verify_of_sign (made : i.sign t = .ok signed)
    (attests : i.key.Attests (i.algorithm.digest t.canonical)) : signed.verify = true := by
  rw [(sign_ok made).2.2, i.address_eq]
  exact SignedTransaction.verify_make attests

end Identity

end Signatory
