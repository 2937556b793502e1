import Mathlib.Logic.Basic
import Signatory.Transaction.Basic

/-!
# Which transactions may be signed

A transaction is acceptable if it has gas, not too much data and a purpose, and a signer may sign it
if it names no chain but the one that the signer is bound to. Whatever is refused is refused because
it cannot be signed.
-/

namespace Signatory

namespace Transaction

variable {t : Transaction} {e : Failure}

/-- A transaction is acceptable if it has gas, not too much data, and a purpose. -/
theorem validate_ok_iff :
    t.validate = .ok () ↔
      0 < t.gasLimit ∧ t.data.length ≤ dataLimit ∧ (t.recipient.isSome ∨ t.data ≠ []) := by
  have positive : 0 < t.gasLimit ↔ t.gasLimit ≠ 0 := by
    rw [UInt64.lt_iff_toNat_lt, ne_eq, ← UInt64.toNat_inj, UInt64.toNat_zero]
    exact Nat.pos_iff_ne_zero
  have purpose : t.recipient.isSome ∨ t.data ≠ [] ↔ ¬ (t.recipient = none ∧ t.data = []) := by
    rw [Option.isSome_iff_ne_none, ← not_and_or]
  rw [positive, purpose]
  unfold validate
  split
  next none => simp [none]
  next gas =>
    split
    next long => simp [Nat.not_le.mpr long]
    next short =>
      split
      next idle => simp [idle]
      next busy => exact iff_of_true rfl ⟨gas, Nat.not_lt.mp short, busy⟩

/-- A transaction that is acceptable has few bytes of data. -/
theorem length_data_of_validate (h : t.validate = .ok ()) : t.data.length ≤ dataLimit :=
  (validate_ok_iff.mp h).2.1

/-- A transaction is refused because it cannot be signed. -/
theorem fault_of_validate (h : t.validate = .error e) : ∃ fault, e = .signing fault := by
  unfold validate at h
  split at h
  next => exact ⟨_, (Except.error.inj h).symm⟩
  next =>
    split at h
    next => exact ⟨_, (Except.error.inj h).symm⟩
    next =>
      split at h
      next => exact ⟨_, (Except.error.inj h).symm⟩
      next => exact absurd h (by simp)

end Transaction

namespace Algorithm

variable {a : Algorithm} {chain : Option UInt64} {e : Failure}

/-- A signer may sign for no chain in particular and for the chain that it is bound to. -/
theorem checkChain_ok_iff :
    a.checkChain chain = .ok () ↔ chain = none ∨ ∃ n, chain = some n ∧ a = .chainBound n := by
  unfold checkChain
  split
  next => simp
  next => simp
  next bound n =>
    split
    next same => simp [same]
    next other => simp [other]

/-- A chain is refused because the signer cannot sign for it. -/
theorem fault_of_checkChain (h : a.checkChain chain = .error e) : ∃ fault, e = .signing fault := by
  unfold checkChain at h
  split at h
  next => exact absurd h (by simp)
  next => exact ⟨_, (Except.error.inj h).symm⟩
  next =>
    split at h
    next => exact absurd h (by simp)
    next => exact ⟨_, (Except.error.inj h).symm⟩

end Algorithm

end Signatory
