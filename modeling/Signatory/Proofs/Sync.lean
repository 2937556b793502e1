import Mathlib.Order.Basic
import Signatory.Proofs.Service.Clerk

/-!
# What a synchronisation comes to

A synchronisation is told by the answers to its lookups. It ends with the first lookup that
succeeds, and moves the sequence number on to the answer if that is greater; if all the lookups that
it may make fail, it fails with the last fault and leaves the identity alone. It waits after each
lookup that fails, except after the last one that it may make. A worker that makes its lookups one at
a time comes to the same.
-/

namespace Signatory

namespace Ledger

variable {L : Type} (lookup : L → Except Fault UInt64 × L)

/-- A ledger after some lookups. -/
def afterLookups : ℕ → L → L
  | 0, l => l
  | n + 1, l => afterLookups n (lookup l).2

/-- What a ledger answers to a lookup after some others. -/
def answer (n : ℕ) (l : L) : Except Fault UInt64 :=
  (lookup (afterLookups lookup n l)).1

/-- Some lookups fail. -/
def Fails (count : ℕ) (l : L) : Prop :=
  ∀ n < count, ∃ fault, answer lookup n l = .error fault

/-- Some lookups fail, and the next one succeeds. -/
def Yields (failed : ℕ) (remote : UInt64) (l : L) : Prop :=
  Fails lookup failed l ∧ answer lookup failed l = .ok remote

variable {lookup} {l : L} {count failed : ℕ} {remote : UInt64}

/-- Lookups of which the first fails go on as lookups of the ledger after it. -/
theorem fails_succ :
    Fails lookup (count + 1) l ↔
      (∃ fault, (lookup l).1 = .error fault) ∧ Fails lookup count (lookup l).2 := by
  constructor
  · intro fails
    exact ⟨fails 0 (Nat.succ_pos _), fun n less ↦ fails (n + 1) (Nat.succ_lt_succ less)⟩
  · rintro ⟨first, others⟩ n less
    cases n with
    | zero => exact first
    | succ n => exact others n (Nat.lt_of_succ_lt_succ less)

theorem yields_succ :
    Yields lookup (failed + 1) remote l ↔
      (∃ fault, (lookup l).1 = .error fault) ∧ Yields lookup failed remote (lookup l).2 := by
  rw [Yields, fails_succ, and_assoc]
  rfl

/-- Among some lookups there is a first one that succeeds, or all of them fail. -/
theorem yields_or_fails (lookup : L → Except Fault UInt64 × L) (count : ℕ) (l : L) :
    (∃ failed < count, ∃ remote, Yields lookup failed remote l) ∨ Fails lookup count l := by
  induction count generalizing l with
  | zero => exact .inr fun n less ↦ absurd less (Nat.not_lt_zero n)
  | succ count ih =>
    cases first : (lookup l).1 with
    | ok remote =>
      exact .inl ⟨0, Nat.succ_pos _, remote, fun n less ↦ absurd less (Nat.not_lt_zero n), first⟩
    | error fault =>
      rcases ih (lookup l).2 with ⟨failed, less, remote, yields⟩ | fails
      · exact .inl ⟨failed + 1, Nat.succ_lt_succ less, remote,
          yields_succ.mpr ⟨⟨fault, first⟩, yields⟩⟩
      · exact .inr (fails_succ.mpr ⟨⟨fault, first⟩, fails⟩)

end Ledger

/-- A synchronisation may make as many lookups as it is told to, and at least one. -/
theorem SyncSettings.attempts_toNat (settings : SyncSettings) :
    settings.attempts.toNat = max settings.maxAttempts.toNat 1 := by
  have one : (1 : UInt32).toNat = 1 := rfl
  have greatest : max settings.maxAttempts 1 =
      if settings.maxAttempts ≤ 1 then 1 else settings.maxAttempts := rfl
  rw [attempts, greatest]
  split
  next le =>
    rw [UInt32.le_iff_toNat_le, one] at le
    omega
  next gt =>
    rw [UInt32.le_iff_toNat_le, one] at gt
    omega

namespace Identity

open Ledger (Fault afterLookups answer Fails Yields fails_succ yields_succ yields_or_fails)

variable {L : Type} {lookup : L → Except Fault UInt64 × L} {settings : SyncSettings}
  {i : Identity} {l : L} {left attempt failed waited : ℕ} {remote : UInt64} {outcome : Outcome}

/-- A lookup that succeeds is the last. -/
theorem syncFrom_ok (first : (lookup l).1 = .ok remote) :
    syncFrom settings lookup (left + 1) attempt i l waited =
      ⟨.ok (i.adopt remote).1, (i.adopt remote).2, (lookup l).2, waited⟩ := by
  have pair : lookup l = (.ok remote, (lookup l).2) := Prod.ext first rfl
  rw [syncFrom, pair]
  rfl

/-- A lookup that fails is followed by another after a wait, unless it is the last that may be
made. -/
theorem syncFrom_error {fault : Fault} (first : (lookup l).1 = .error fault) :
    syncFrom settings lookup (left + 1) attempt i l waited =
      if attempt < settings.attempts.toNat then
        syncFrom settings lookup left (attempt + 1) i (lookup l).2 (waited + settings.backoff)
      else ⟨.error (.syncFailed settings.attempts fault), i, (lookup l).2, waited⟩ := by
  have pair : lookup l = (.error fault, (lookup l).2) := Prod.ext first rfl
  rw [syncFrom, pair]
  dsimp only [judge]
  by_cases more : attempt < settings.attempts.toNat
  · rw [if_pos more, if_pos more]
  · rw [if_neg more, if_neg more]

/-- The lookups that are left end with the first that succeeds. -/
theorem syncFrom_of_yields (yields : Yields lookup failed remote l) (less : failed < left)
    (last : attempt + left = settings.attempts.toNat + 1) :
    syncFrom settings lookup left attempt i l waited =
      ⟨.ok (i.adopt remote).1, (i.adopt remote).2, afterLookups lookup (failed + 1) l,
        waited + settings.backoff * failed⟩ := by
  obtain ⟨left, rfl⟩ := Nat.exists_eq_succ_of_ne_zero (Nat.ne_of_gt (Nat.zero_lt_of_lt less))
  induction failed generalizing left attempt l waited with
  | zero => exact syncFrom_ok yields.2
  | succ failed ih =>
    obtain ⟨⟨fault, first⟩, others⟩ := yields_succ.mp yields
    obtain ⟨left, rfl⟩ : ∃ more, left = more + 1 := ⟨left - 1, by omega⟩
    rw [syncFrom_error first, if_pos (by omega), ih others left (by omega) (by omega),
      Nat.mul_succ, Nat.add_assoc, Nat.add_comm settings.backoff]
    rfl

/-- If the lookups that are left all fail, the fault of the last one is told. -/
theorem syncFrom_of_fails (fails : Fails lookup (left + 1) l)
    (last : attempt + left = settings.attempts.toNat) :
    ∃ fault, answer lookup left l = .error fault ∧
      syncFrom settings lookup (left + 1) attempt i l waited =
        ⟨.error (.syncFailed settings.attempts fault), i, afterLookups lookup (left + 1) l,
          waited + settings.backoff * left⟩ := by
  induction left generalizing attempt l waited with
  | zero =>
    obtain ⟨⟨fault, first⟩, -⟩ := fails_succ.mp fails
    refine ⟨fault, first, ?_⟩
    rw [syncFrom_error first, if_neg (by omega)]
    rfl
  | succ left ih =>
    obtain ⟨⟨fault, first⟩, others⟩ := fails_succ.mp fails
    obtain ⟨fault', final, ended⟩ :=
      @ih (lookup l).2 (attempt + 1) (waited + settings.backoff) others (by omega)
    refine ⟨fault', final, ?_⟩
    rw [syncFrom_error first, if_pos (by omega), ended, Nat.mul_succ, Nat.add_assoc,
      Nat.add_comm settings.backoff]
    rfl

/-- A synchronisation ends with the first lookup that succeeds, if it may make that many. -/
theorem syncWith_of_yields (yields : Yields lookup failed remote l)
    (less : failed < settings.attempts.toNat) :
    i.syncWith settings lookup l =
      ⟨.ok (i.adopt remote).1, (i.adopt remote).2, afterLookups lookup (failed + 1) l,
        settings.backoff * failed⟩ := by
  rw [syncWith, syncFrom_of_yields yields less (by omega), Nat.zero_add]

/-- A synchronisation whose lookups all fail tells the fault of the last one. -/
theorem syncWith_of_fails (fails : Fails lookup settings.attempts.toNat l) :
    ∃ fault, answer lookup (settings.attempts.toNat - 1) l = .error fault ∧
      i.syncWith settings lookup l =
        ⟨.error (.syncFailed settings.attempts fault), i,
          afterLookups lookup settings.attempts.toNat l,
          settings.backoff * (settings.attempts.toNat - 1)⟩ := by
  have positive := settings.attempts_toNat
  obtain ⟨more, count⟩ : ∃ more, settings.attempts.toNat = more + 1 :=
    ⟨settings.attempts.toNat - 1, by omega⟩
  rw [count] at fails
  obtain ⟨fault, final, ended⟩ : ∃ fault, answer lookup more l = .error fault ∧
      syncFrom settings lookup (more + 1) 1 i l 0 =
        ⟨.error (.syncFailed settings.attempts fault), i, afterLookups lookup (more + 1) l,
          0 + settings.backoff * more⟩ :=
    syncFrom_of_fails fails (by omega)
  refine ⟨fault, by rwa [count], ?_⟩
  rw [syncWith, count, ended, Nat.zero_add]
  rfl

/-- A synchronisation that succeeds has adopted the answer to the first lookup that did. -/
theorem yields_of_syncWith (synced : (i.syncWith settings lookup l).result = .ok outcome) :
    ∃ failed < settings.attempts.toNat, ∃ remote, Yields lookup failed remote l := by
  rcases yields_or_fails lookup settings.attempts.toNat l with yields | fails
  · exact yields
  · obtain ⟨fault, -, ended⟩ := syncWith_of_fails (i := i) fails
    rw [ended] at synced
    exact absurd synced (by simp)

end Identity

namespace Service.Clerk

variable {k : Clerk} {i : Identity} {answers rest : List Answer} {left attempt waited : ℕ}
  {done : Result × Option Identity}

/-- A ledger whose answers are listed. -/
def listed : List Answer → Answer × List Answer
  | [] => (.error (.transport "no answer"), [])
  | answer :: answers => (answer, answers)

/-- Lookups that are made one at a time come to what they come to in one go. -/
theorem consult_syncFrom (h : k.consult i attempt answers = some (done, rest))
    (last : attempt + left = k.sync.attempts.toNat + 1) (more : 0 < left) :
    let synced := Identity.syncFrom k.sync listed left attempt i answers waited
    done = (synced.result.map .synced, some synced.identity) ∧ rest = synced.ledger := by
  induction answers generalizing left attempt waited with
  | nil => exact absurd h (by simp [consult])
  | cons answer answers ih =>
    obtain ⟨left, rfl⟩ : ∃ others, left = others + 1 := ⟨left - 1, by omega⟩
    cases answer with
    | ok remote =>
      rw [consult, handleAnswer_ok] at h
      obtain ⟨rfl, rfl⟩ := Prod.mk.inj (Option.some.inj h)
      have first : (listed (.ok remote :: answers)).1 = .ok remote := rfl
      rw [Identity.syncFrom_ok first]
      exact ⟨rfl, rfl⟩
    | error fault =>
      rw [consult, handleAnswer_error] at h
      have first : (listed (.error fault :: answers)).1 = .error fault := rfl
      rw [Identity.syncFrom_error first]
      by_cases again : attempt < k.sync.attempts.toNat
      · rw [if_pos again] at h ⊢
        exact ih h (by omega) (by omega)
      · rw [if_neg again] at h ⊢
        obtain ⟨rfl, rfl⟩ := Prod.mk.inj (Option.some.inj h)
        exact ⟨rfl, rfl⟩

/-- What a worker comes to, which makes the lookups of a synchronisation one at a time. -/
theorem consult_sync (h : k.consult i 1 answers = some (done, rest)) :
    let synced := i.syncWith k.sync listed answers
    done = (synced.result.map .synced, some synced.identity) ∧ rest = synced.ledger :=
  consult_syncFrom h (Nat.add_comm 1 _) (by have := k.sync.attempts_toNat; omega)

end Service.Clerk

end Signatory
