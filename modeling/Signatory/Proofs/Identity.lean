import Signatory.Proofs.Transaction.Acceptable
import Signatory.Service.Handling

/-!
# Signing with the next sequence number

A draft that is signed takes the current sequence number, which is not the greatest, and moves the
identity on to the next; a draft that is refused does nothing. The greatest number is never used, so
the next one is always greater.
-/

namespace Signatory.Identity

variable {i next : Identity} {d : Draft} {signed : SignedTransaction}

/-- An identity is refused only if it has come to the greatest sequence number. -/
theorem checkAvailable_eq (i : Identity) :
    i.checkAvailable = .ok () ∧ i.sequenceNumber ≠ lastNumber ∨
      i.checkAvailable = .error (.signing (.exhausted i.sequenceNumber)) ∧
        i.sequenceNumber = lastNumber := by
  unfold checkAvailable
  split
  next last => exact .inr ⟨rfl, last⟩
  next early => exact .inl ⟨rfl, early⟩

/-- What is made from a draft is signed with the identity's key. -/
theorem sign_ok {t : Transaction} (h : i.sign t = .ok signed) :
    t.validate = .ok () ∧ i.algorithm.checkChain t.chainId = .ok () ∧
      signed = SignedTransaction.make i.key i.address i.algorithm t := by
  unfold sign at h
  split at h
  next => exact absurd h (by simp)
  next valid =>
    split at h
    next => exact absurd h (by simp)
    next chain => exact ⟨valid, chain, (Except.ok.inj h).symm⟩

/-- What a draft that is signed does: it takes the current number and moves on to the next. -/
theorem signNext_ok (h : i.signNext d = .ok (signed, next)) :
    i.sequenceNumber ≠ lastNumber ∧ i.sign (d.withNonce i.sequenceNumber) = .ok signed ∧
      next = { i with sequenceNumber := i.sequenceNumber + 1 } := by
  unfold signNext at h
  rcases checkAvailable_eq i with ⟨available, early⟩ | ⟨refused, -⟩
  · rw [available] at h
    dsimp only at h
    split at h
    next => exact absurd h (by simp)
    next made =>
      unfold takeNumber at h
      rw [available] at h
      obtain ⟨rfl, rfl⟩ := Prod.mk.inj (Except.ok.inj h)
      exact ⟨early, made, rfl⟩
  · rw [refused] at h
    exact absurd h (by simp)

/-- A signed draft has the number that was current. -/
theorem nonce_of_signNext (h : i.signNext d = .ok (signed, next)) :
    signed.nonce = i.sequenceNumber := by
  obtain ⟨-, made, -⟩ := signNext_ok h
  rw [(sign_ok made).2.2]
  rfl

/-- The number after the current one is greater, because the greatest is never used. -/
theorem succ_toNat {n : UInt64} (early : n ≠ lastNumber) : (n + 1).toNat = n.toNat + 1 := by
  have apart : n.toNat ≠ 2 ^ 64 - 1 := fun same ↦ early (UInt64.toNat_inj.mp (by rw [same]; rfl))
  have bound := n.toNat_lt
  rw [UInt64.toNat_add, UInt64.toNat_one]
  omega

/-- A draft is refused because it cannot be signed, and for no other reason. -/
theorem signNext_error {e : Failure} (h : i.signNext d = .error e) : ∃ fault, e = .signing fault := by
  unfold signNext at h
  rcases checkAvailable_eq i with ⟨available, -⟩ | ⟨refused, -⟩
  · rw [available] at h
    dsimp only at h
    split at h
    next e' failed =>
      obtain rfl := Except.error.inj h
      unfold sign at failed
      split at failed
      next e' refused =>
        exact Transaction.fault_of_validate (Except.error.inj failed ▸ refused)
      next =>
        split at failed
        next e' refused =>
          exact Algorithm.fault_of_checkChain (Except.error.inj failed ▸ refused)
        next => exact absurd failed (by simp)
    next =>
      unfold takeNumber at h
      rw [available] at h
      exact absurd h (by simp [Except.map])
  · rw [refused] at h
    exact ⟨_, (Except.error.inj h).symm⟩

/-- A number that a ledger answers is adopted if it is greater than the current one. -/
theorem adopt_eq (i : Identity) (remote : UInt64) :
    i.sequenceNumber < remote ∧
        i.adopt remote =
          (.adopted i.sequenceNumber remote, { i with sequenceNumber := remote }) ∨
      remote ≤ i.sequenceNumber ∧
        i.adopt remote = (.unchanged i.sequenceNumber remote, i) := by
  unfold adopt advanceTo
  by_cases ahead : i.sequenceNumber < remote
  · rw [if_pos ahead]
    exact .inl ⟨ahead, rfl⟩
  · rw [if_neg ahead]
    exact .inr ⟨UInt64.not_lt.mp ahead, rfl⟩

end Signatory.Identity

namespace Signatory.Service

variable {settings : SyncSettings} {i : Identity} {attempt : Nat}

/-- A lookup that succeeds ends a synchronisation with what the identity makes of the answer. -/
theorem handleAnswer_ok (settings : SyncSettings) (i : Identity) (attempt : Nat) (remote : UInt64) :
    handleAnswer settings i attempt (.ok remote) =
      (some (.ok (.synced (i.adopt remote).1)), (i.adopt remote).2) :=
  rfl

/-- A lookup that fails leaves the identity alone; the last one ends the synchronisation. -/
theorem handleAnswer_error (settings : SyncSettings) (i : Identity) (attempt : Nat)
    (fault : Ledger.Fault) :
    handleAnswer settings i attempt (.error fault) =
      (if attempt < settings.attempts.toNat then none
        else some (.error (.syncFailed settings.attempts fault)), i) := by
  unfold handleAnswer Identity.judge
  dsimp only
  by_cases more : attempt < settings.attempts.toNat
  · rw [if_pos more, if_pos more]
  · rw [if_neg more, if_neg more]

end Signatory.Service
